import FsFat.DirectoryListing
import FsFat.Lib.Outcome
import Mathlib.Data.List.TakeWhile

/-!
The two functions that read a directory, over the same entries: one walks along
a chain of clusters, the other reads a range. They treat an entry alike unless
it is a short name with the flag of a volume label and another flag, or a
segment of a long name that starts as the name of the directory itself or of its
parent. The first of these always makes a difference.
-/

namespace FsFat

open Bytes DirectoryEntry DirectoryReadState Outcome

/-- The entries are the same but for the offset of the slot. -/
def SameButIdentifier (entry entry' : DirectoryEntry) : Prop :=
  { entry with identifier := 0 } = { entry' with identifier := 0 }

/-- The directories list the same files in the same order, and have the same
volume label. -/
structure SameListing (directory directory' : Directory) : Prop where
  fileEntries : List.Forall₂ SameButIdentifier directory.fileEntries directory'.fileEntries
  volumeLabelEntry :
    Option.Rel SameButIdentifier directory.volumeLabelEntry directory'.volumeLabelEntry

/-- The variables that the two functions have in common. -/
structure SameState (s s' : DirectoryReadState) : Prop where
  directory : SameListing s.directory s'.directory
  nameEntries : s.nameEntries = s'.nameEntries
  lastVfatSequenceNumber : s.lastVfatSequenceNumber = s'.lastVfatSequenceNumber

/-- An entry with the flag of a volume label has no other flag. -/
def IsPureLabel (data : List UInt8) : Prop :=
  entryTypeOf data .fat16 = .shortName → byteAt data 11 &&& fileAttributeFlagVolumeLabel ≠ 0 →
    byteAt data 11 = fileAttributeFlagVolumeLabel

/-- The two functions treat the entry alike. -/
structure IsReadAlike (data : List UInt8) : Prop where
  label : IsPureLabel data
  longName : entryTypeOf data .fat16 = .vfatLongName → ¬ HasDotName (readVfatLongName data).nameData

/-! ### One entry -/

section Entry

variable {s s' : DirectoryReadState}

theorem SameState.appendEntry (h : SameState s s') (offset offset' : Int) :
    SameState (s.appendEntry offset) (s'.appendEntry offset') :=
  ⟨⟨h.directory.fileEntries, h.directory.volumeLabelEntry⟩, h.nameEntries,
    h.lastVfatSequenceNumber⟩

theorem setVolumeLabelEntry_agree (h : SameState s s') {entry entry' : DirectoryEntry}
    (hentry : SameButIdentifier entry entry') :
    Agree SameState (s.setVolumeLabelEntry entry) (s'.setVolumeLabelEntry entry') := by
  obtain ⟨⟨hfiles, hlabel⟩, hnames, hnumber⟩ := h
  unfold setVolumeLabelEntry
  generalize hold : s.directory.volumeLabelEntry = label at hlabel ⊢
  generalize hold' : s'.directory.volumeLabelEntry = label' at hlabel ⊢
  cases hlabel with
  | none => exact ⟨⟨hfiles, .some hentry⟩, hnames, hnumber⟩
  | some hsame => trivial

theorem addVfatLongName_agree (h : SameState s s') {entry entry' : DirectoryEntry}
    (hentry : SameButIdentifier entry entry') :
    Agree SameState (s.addVfatLongName entry) (s'.addVfatLongName entry') := by
  have hsequence : entry.vfatSequenceNumber = entry'.vfatSequenceNumber := by
    have h := congrArg DirectoryEntry.vfatSequenceNumber hentry
    exact h
  have hdata : entry.nameData = entry'.nameData := by
    have h := congrArg DirectoryEntry.nameData hentry
    exact h
  obtain ⟨hdirectory, hnames, hnumber⟩ := h
  simp only [addVfatLongName, hsequence, hdata, hnames, hnumber]
  split_ifs with hflag hnext
  · exact ⟨hdirectory, rfl, rfl⟩
  · trivial
  · cases hnames' : s'.nameEntries with
    | none => trivial
    | some names => exact ⟨hdirectory, rfl, rfl⟩

/-- The name that is put together does not depend on the identifier. -/
theorem getNameFromVfatLongFileNameEntries_agree {entry entry' : DirectoryEntry}
    (hentry : SameButIdentifier entry entry') (names : List (List UInt8)) :
    Agree SameButIdentifier (entry.getNameFromVfatLongFileNameEntries names)
      (entry'.getNameFromVfatLongFileNameEntries names) := by
  have hname : entry.name = entry'.name := by
    have h := congrArg DirectoryEntry.name hentry
    exact h
  unfold getNameFromVfatLongFileNameEntries
  generalize names.reverse.map (fun segment => segment.take 26) = segments
  unfold setNameFromSegments
  rw [hname]
  split_ifs with hset hlength
  · trivial
  · trivial
  · have h := congrArg (fun e : DirectoryEntry => { e with
      name := some (upToZeroUnit (segments.flatten ++ [0, 0]))
      nameSize := (upToZeroUnit (segments.flatten ++ [0, 0])).length
      isUnicode := true }) hentry
    exact h

theorem addShortName_agree (h : SameState s s') {entry entry' : DirectoryEntry}
    (hentry : SameButIdentifier entry entry') (offset offset' : Int) :
    Agree SameState (s.addShortName entry offset) (s'.addShortName entry' offset') := by
  obtain ⟨⟨hfiles, hlabel⟩, hnames, hnumber⟩ := h
  cases hnames' : s'.nameEntries with
  | none =>
    rw [addShortName_of_none (hnames.trans hnames'), addShortName_of_none hnames']
    refine ⟨⟨?_, hlabel⟩, rfl, hnumber⟩
    exact List.rel_append hfiles (.cons hentry .nil)
  | some names =>
    rw [addShortName_of_some (hnames.trans hnames'), addShortName_of_some hnames']
    have hidentifiers : SameButIdentifier (withIdentifier entry offset)
        (withIdentifier entry' offset') := hentry
    refine (getNameFromVfatLongFileNameEntries_agree hidentifiers names).map
      fun named named' hsame => ⟨⟨?_, hlabel⟩, rfl, hnumber⟩
    exact List.rel_append hfiles (.cons hsame .nil)

/-- An entry that the two functions treat alike. -/
theorem processEntry_agree (h : SameState s s') {format : FileSystemFormat}
    (hformat : format ≠ .exfat) {data : List UInt8} (hlength : data.length = directoryEntrySize)
    (hdot : ¬ HasDotName data) (halike : IsReadAlike data) {entry : DirectoryEntry}
    (hentry : readData data format = .ok (some entry))
    (hallocated : entry.entryType ≠ .unallocated) (offset offset' : Int) :
    Agree SameState (s.processEntry entry offset) (s'.processEntryByRange entry offset') := by
  have hsame : SameButIdentifier entry { entry with identifier := toUint64 offset' } := rfl
  rcases readData_eq_some hformat hentry with ⟨htype, rfl⟩ | ⟨htype, rfl⟩ | ⟨_, rfl⟩
  · have hrange : s'.processEntryByRange (readShortName data) offset' =
        if byteAt data 11 = fileAttributeFlagVolumeLabel then
          s'.setVolumeLabelEntry { readShortName data with identifier := toUint64 offset' }
        else s'.addShortName { readShortName data with identifier := toUint64 offset' } offset' := rfl
    rw [processEntry_shortName hlength, if_neg fun hself => hdot (Or.inl hself),
      if_neg fun hparent => hdot (Or.inr hparent), hrange]
    by_cases hflag : byteAt data 11 &&& fileAttributeFlagVolumeLabel ≠ 0
    · rw [if_pos hflag, if_pos (halike.label htype hflag)]
      exact setVolumeLabelEntry_agree h hsame
    · have hne : byteAt data 11 ≠ fileAttributeFlagVolumeLabel := by
        intro heq
        rw [heq] at hflag
        exact hflag (by decide)
      rw [if_neg hflag, if_neg hne]
      exact addShortName_agree h hsame offset offset'
  · rw [processEntry_of_not_dotName (halike.longName htype)]
    exact addVfatLongName_agree h hsame
  · exact absurd rfl hallocated

end Entry

/-! ### The entries one after the other -/

section Entries

variable {format : FileSystemFormat}

/-- The entries of slots with the same bytes. -/
theorem processEntries_agree (hformat : format ≠ .exfat) {slots slots' : List Slot}
    (hslots : ∀ slot ∈ slots, slot.2.length = directoryEntrySize ∧ IsEntry format slot)
    (hdot : ∀ slot ∈ slots, ¬ HasDotName slot.2) (halike : ∀ slot ∈ slots, IsReadAlike slot.2)
    (hdata : slots.map Prod.snd = slots'.map Prod.snd) {s s' : DirectoryReadState}
    (h : SameState s s') :
    Agree SameState (processEntries processEntry (entriesOf format slots) s)
      (processEntries processEntryByRange (entriesOf format slots') s') := by
  induction slots generalizing slots' s s' with
  | nil =>
    rw [List.map_nil, eq_comm, List.map_eq_nil_iff] at hdata
    subst hdata
    exact h
  | cons slot slots ih =>
    cases slots' with
    | nil => cases hdata
    | cons slot' slots' =>
      rw [List.map_cons, List.map_cons] at hdata
      injection hdata with hdata hrest
      rw [List.forall_mem_cons] at hslots hdot halike
      obtain ⟨⟨hlength, entry, hentry⟩, hslots⟩ := hslots
      have hentry' : readData slot'.2 format = .ok (some entry) := hdata ▸ hentry
      rw [entriesOf, entriesOf, List.filterMap_cons, List.filterMap_cons, entryOf, entryOf, hentry,
        hentry']
      by_cases hun : entry.entryType = .unallocated
      · simp only [hun, if_true]
        exact ih hslots hdot.2 halike.2 hrest h
      · simp only [hun, if_false, processEntries]
        have hstep := processEntry_agree h hformat hlength hdot.1 halike.1 hentry hun slot.1 slot'.1
        cases hs : s.processEntry entry slot.1 with
        | error e =>
          cases hs' : s'.processEntryByRange entry slot'.1 with
          | error e' => trivial
          | ok s₁' =>
            rw [hs, hs'] at hstep
            exact hstep.elim
        | ok s₁ =>
          rw [hs] at hstep
          obtain ⟨s₁', hs', hsame⟩ := hstep.of_ok rfl
          rw [hs']
          exact ih hslots hdot.2 halike.2 hrest (hsame.appendEntry slot.1 slot'.1)

/-- The slot has a short name that reading a range adds to the file entries. -/
def IsListedByRange (slot : Slot) : Prop :=
  entryTypeOf slot.2 .fat16 = .shortName ∧ byteAt slot.2 11 ≠ fileAttributeFlagVolumeLabel

instance (slot : Slot) : Decidable (IsListedByRange slot) := inferInstanceAs (Decidable (_ ∧ _))

/-- What is done with a short name of a range. -/
theorem processEntryByRange_shortName (slot : Slot) (s : DirectoryReadState) :
    s.processEntryByRange (readShortName slot.2) slot.1 =
      if byteAt slot.2 11 = fileAttributeFlagVolumeLabel then
        s.setVolumeLabelEntry (withIdentifier (readShortName slot.2) slot.1)
      else s.addShortName (readShortName slot.2) slot.1 := rfl

/-- Reading a range lists these slots. -/
theorem isLister_processEntryByRange (hformat : format ≠ .exfat) :
    IsLister processEntryByRange format IsListedByRange := by
  constructor
  · rintro slot entry s s' - hentry h ⟨htype, hlabel⟩
    rcases readData_eq_some hformat hentry with ⟨_, rfl⟩ | ⟨htype', _⟩ | ⟨htype', _⟩
    · rw [processEntryByRange_shortName, if_neg hlabel] at h
      obtain ⟨named, hidentifier, rfl⟩ := addShortName_eq_ok h
      simp [appendFileEntry, hidentifier]
    · rw [htype] at htype'
      cases htype'
    · rw [htype] at htype'
      cases htype'
  · intro slot entry s s' _ hentry hun h hnot
    rcases readData_eq_some hformat hentry with ⟨htype, rfl⟩ | ⟨_, rfl⟩ | ⟨_, rfl⟩
    · have hlabel : byteAt slot.2 11 = fileAttributeFlagVolumeLabel := by
        by_contra hlabel
        exact hnot ⟨htype, hlabel⟩
      rw [processEntryByRange_shortName, if_pos hlabel] at h
      rw [(setSpecialEntry_listing (Or.inr (Or.inr h))).1]
    · have hdirectory : s'.directory = s.directory := addVfatLongName_directory h
      rw [hdirectory]
    · exact absurd rfl hun
  · rintro slot entry hentry ⟨htype, _⟩
    exact (isAllocated_iff hformat hentry).mp (by rw [IsAllocated, htype]; decide)

end Entries

/-! ### The two functions -/

/-- The slots before the terminator. -/
def slotsBeforeTerminator (slots : List Slot) : List Slot :=
  slots.takeWhile fun slot => slot.2 ≠ DirectoryEntry.empty

/-- Only the empty entry is the terminator. -/
theorem readData_of_ne_empty {format : FileSystemFormat} (hformat : format ≠ .exfat)
    {data : List UInt8} (hne : data ≠ DirectoryEntry.empty) :
    ∃ entry, readData data format = .ok (some entry) := by
  rw [readData, entryTypeOf_fat hformat]
  simp only [entryTypeOf, reduceCtorEq, hne, if_false]
  split_ifs
  · exact ⟨_, rfl⟩
  · exact ⟨_, rfl⟩
  · exact ⟨_, rfl⟩
  · exact ⟨_, rfl⟩

theorem endsDirectory_slotsBeforeTerminator {format : FileSystemFormat} (hformat : format ≠ .exfat)
    (slots : List Slot) :
    EndsDirectory format (slotsBeforeTerminator slots)
      (slots.dropWhile fun slot => slot.2 ≠ DirectoryEntry.empty) where
  entries slot hslot := by
    have hne := List.mem_takeWhile_imp hslot
    exact readData_of_ne_empty hformat (by simpa using hne)
  ends slot hslot := by
    rw [← List.find?_not_eq_head?_dropWhile] at hslot
    have hempty := List.find?_some hslot
    unfold IsTerminator
    rw [show slot.2 = DirectoryEntry.empty by simpa using hempty]
    exact readData_terminator hformat

/-- The slots of a range of the image, as bytes, are those of a chain of
clusters, and none of them is the entry of the directory itself or of its
parent. -/
structure StoredAlike (fs : FileSystem) (image image' : List UInt8) (chain : List Nat)
    (fileOffset : Int) : Prop where
  offset_nonneg : 0 ≤ fileOffset
  in_image : fileOffset + (chain.length * fs.ioHandle.clusterBlockSize : Nat) ≤ image'.length
  image_le : image'.length ≤ int64Max
  data : (chainSlots fs.ioHandle image chain).map Prod.snd =
    (slotsAt image' fileOffset (chain.length * slotsPerCluster fs.ioHandle)).map Prod.snd
  not_dot : ∀ slot ∈ chainSlots fs.ioHandle image chain, ¬ HasDotName slot.2

section Readers

variable {fs : FileSystem} {image image' : List UInt8} {last c : Nat} {chain : List Nat}
  {fileOffset : Int}

/-- Reading the range, when its slots are those of a chain. -/
theorem readDirectoryByRange_eq_ok_iff (hformat : fs.ioHandle.fileSystemFormat ≠ .exfat)
    (hwhole : WholeSlots fs.ioHandle image chain)
    (hstored : StoredAlike fs image image' chain fileOffset) (directory : Directory) :
    readDirectoryByRange fs image' fileOffset (chain.length * fs.ioHandle.clusterBlockSize) =
        .ok directory ↔
      ∃ s, processEntries processEntryByRange (entriesOf fs.ioHandle.fileSystemFormat
          (slotsBeforeTerminator
            (slotsAt image' fileOffset (chain.length * slotsPerCluster fs.ioHandle)))) .start =
        .ok s ∧ s.directory = directory := by
  obtain ⟨h0, hin, himage, _, _⟩ := hstored
  have hsize : chain.length * fs.ioHandle.clusterBlockSize =
      chain.length * slotsPerCluster fs.ioHandle * directoryEntrySize := by
    rw [Nat.mul_assoc, ← hwhole.size_eq]
  rw [hsize] at hin ⊢
  have hend : toOff64 (fileOffset +
      (chain.length * slotsPerCluster fs.ioHandle * directoryEntrySize : Nat)) =
        fileOffset + (chain.length * slotsPerCluster fs.ioHandle * directoryEntrySize : Nat) :=
    toOff64_of_nonneg (by omega) (by omega)
  have hslots : slotsAt image' fileOffset (chain.length * slotsPerCluster fs.ioHandle) =
      slotsBeforeTerminator
          (slotsAt image' fileOffset (chain.length * slotsPerCluster fs.ioHandle)) ++
        (slotsAt image' fileOffset (chain.length * slotsPerCluster fs.ioHandle)).dropWhile
          fun slot => slot.2 ≠ DirectoryEntry.empty := List.takeWhile_append_dropWhile.symm
  have hscan := scanEntries_eq h0 (by omega) hslots
    (endsDirectory_slotsBeforeTerminator hformat _)
  simp only [readDirectoryByRange, hend, numberOfEntriesBetween_eq, bind_eq_ok_iff, pure,
    Except.pure, Except.ok.injEq]
  constructor
  · rintro ⟨⟨s, terminated⟩, hread, rfl⟩
    obtain ⟨entries, hentries, hs⟩ := readEntries_eq_ok_iff.mp hread
    rw [hscan] at hentries
    injection hentries with hentries
    injection hentries with hentries _
    exact ⟨s, hentries ▸ hs, rfl⟩
  · rintro ⟨s, hs, rfl⟩
    exact ⟨(s, _), readEntries_eq_ok_iff.mpr ⟨_, hscan, hs⟩, rfl⟩

theorem length_of_mem_slotsAt {offset : Int} {count : Nat}
    (hin : offset.toNat + count * directoryEntrySize ≤ image.length) (h0 : 0 ≤ offset) {slot : Slot}
    (hslot : slot ∈ slotsAt image offset count) : slot.2.length = directoryEntrySize := by
  induction count generalizing offset with
  | zero => cases hslot
  | succ count ih =>
    simp only [directoryEntrySize] at hin
    rcases List.mem_cons.mp hslot with rfl | hslot
    · simp only [List.length_take, List.length_drop, directoryEntrySize]
      omega
    · exact ih (by simp only [directoryEntrySize]; omega) (by simp only [directoryEntrySize]; omega)
        hslot

theorem length_of_mem_chainSlots (hwhole : WholeSlots fs.ioHandle image chain) {slot : Slot}
    (hslot : slot ∈ chainSlots fs.ioHandle image chain) : slot.2.length = directoryEntrySize := by
  obtain ⟨d, hd, hslot⟩ := List.mem_flatMap.mp hslot
  obtain ⟨h0, hin⟩ := hwhole.in_image hd
  exact length_of_mem_slotsAt hin h0 hslot

/-- The bytes of the slots before the terminator depend on the bytes of the slots only. -/
theorem map_snd_slotsBeforeTerminator (slots : List Slot) :
    (slotsBeforeTerminator slots).map Prod.snd =
      (slots.map Prod.snd).takeWhile fun data => data ≠ DirectoryEntry.empty := by
  rw [slotsBeforeTerminator, List.takeWhile_map]
  rfl

/-- Of a property and a weaker one that count the same elements, each implies the other. -/
theorem imp_of_countP_eq {α : Type} {p q : α → Prop} [DecidablePred p] [DecidablePred q]
    {l : List α} (himp : ∀ a ∈ l, p a → q a) (h : l.countP p = l.countP q) :
    ∀ a ∈ l, q a → p a := by
  induction l with
  | nil => exact fun a ha => absurd ha List.not_mem_nil
  | cons b l ih =>
    rw [List.forall_mem_cons] at himp
    have hle : l.countP p ≤ l.countP q :=
      List.countP_mono_left fun a ha hp => by simpa using himp.2 a ha (by simpa using hp)
    rw [List.countP_cons, List.countP_cons] at h
    rw [List.forall_mem_cons]
    by_cases hp : p b
    · have hq := himp.1 hp
      simp only [hp, hq, decide_true, if_true] at h
      exact ⟨fun _ => hp, ih himp.2 (by omega)⟩
    · by_cases hq : q b
      · simp only [hp, hq, decide_false, decide_true, Bool.false_eq_true, if_true, if_false] at h
        omega
      · simp only [hp, hq, decide_false, Bool.false_eq_true, if_false] at h
        exact ⟨fun h => absurd h hq, ih himp.2 (by omega)⟩

/-- The slots that reading a range adds are as many in slots with the same bytes. -/
theorem countP_isListedByRange {slots slots' : List Slot}
    (h : slots.map Prod.snd = slots'.map Prod.snd) :
    slots.countP IsListedByRange = slots'.countP IsListedByRange := by
  have hdata (slots : List Slot) : slots.countP IsListedByRange =
      (slots.map Prod.snd).countP fun data => IsListedByRange (0, data) := by
    rw [List.countP_map]
    rfl
  rw [hdata, h, ← hdata]

/-- The block tree covers the clusters of a chain up to the one in which the
terminator is. -/
def CoversDirectory (ioHandle : IoHandle) (image : List UInt8) (chain : List Nat) : Prop :=
  ∀ j < chain.length,
    j * slotsPerCluster ioHandle ≤
      (slotsBeforeTerminator (chainSlots ioHandle image chain)).length →
    CoversCluster ioHandle (chain.getD j 0)

end Readers

/-- The volume of `vfatFileSystem` with a volume label that has the archive flag too. -/
def archivedLabelImage : List UInt8 :=
  List.replicate 512 0 ++ [0x4c, 0x41, 0x42, 0x45, 0x4c, 0x20, 0x20, 0x20, 0x20, 0x20, 0x20, 0x28] ++
    List.replicate 500 0

theorem wholeSlots_archivedLabelImage :
    WholeSlots vfatFileSystem.ioHandle archivedLabelImage [2] where
  volume := ⟨by decide, by decide, by decide, by decide⟩
  dvd := by decide
  image_le := by decide +kernel

theorem storedAlike_archivedLabelImage :
    StoredAlike vfatFileSystem archivedLabelImage archivedLabelImage [2] 512 where
  offset_nonneg := by decide
  in_image := by decide +kernel
  image_le := by decide +kernel
  data := by decide +kernel
  not_dot := by decide +kernel

theorem SameListing.map_eq {directory directory' : Directory} (h : SameListing directory directory')
    {α : Type} {f : DirectoryEntry → α} (hf : ∀ e e', SameButIdentifier e e' → f e = f e') :
    directory.fileEntries.map f = directory'.fileEntries.map f := by
  have hfiles := h.fileEntries
  generalize directory.fileEntries = entries at hfiles ⊢
  generalize directory'.fileEntries = entries' at hfiles ⊢
  induction hfiles with
  | nil => rfl
  | cons hentry _ ih => rw [List.map_cons, List.map_cons, hf _ _ hentry, ih]

theorem SameButIdentifier.isUnicode {entry entry' : DirectoryEntry}
    (h : SameButIdentifier entry entry') : entry.isUnicode = entry'.isUnicode := by
  have hunicode := congrArg DirectoryEntry.isUnicode h
  exact hunicode

end FsFat
