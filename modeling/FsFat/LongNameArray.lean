import FsFat.DirectoryListing
import FsFat.FileSystem
import FsFat.LongNameBuffer

/-!
The array in which the two functions that read a directory collect the entries of a long name. It
is made by the first entry of a long name and freed by the short name behind it; the sequence
number of the last entry outlives it. At every point of a run without an error the array is absent
or has one to twenty entries whose sequence numbers go down by one.
-/

namespace FsFat

open Bytes DirectoryEntry

namespace DirectoryReadState

/-! ### The array -/

/-- The sequence number without its flags. -/
def maskedNumber (entry : DirectoryEntry) : Nat := entry.vfatSequenceNumber &&& 0x1f

/-- The entries that are neither listed nor part of a long name, whatever their type is. -/
def isSpecialEntry (entry : DirectoryEntry) : Bool :=
  HasDotName entry.nameData ∨ (entry.entryType = .shortName ∧
    entry.fileAttributeFlags &&& fileAttributeFlagVolumeLabel ≠ 0)

/-- Reading by a range knows the volume label only, by its attributes. -/
def isSpecialEntryByRange (entry : DirectoryEntry) : Bool :=
  entry.entryType = .shortName ∧ entry.fileAttributeFlags = fileAttributeFlagVolumeLabel

/-- `name_entries_array` behind an entry. -/
def arrayAfter (isSpecial : DirectoryEntry → Bool) (array : Option (List DirectoryEntry))
    (entry : DirectoryEntry) : Option (List DirectoryEntry) :=
  if isSpecial entry then array
  else
    match entry.entryType with
    | .shortName => none
    | .vfatLongName =>
      if entry.vfatSequenceNumber &&& 0x40 ≠ 0 then some [entry] else array.map (· ++ [entry])
    | _ => array

/-- `name_entries_array` behind the entries of a directory. -/
def arrayBehind (isSpecial : DirectoryEntry → Bool) (entries : List DirectoryEntry) :
    Option (List DirectoryEntry) :=
  entries.foldl (arrayAfter isSpecial) none

/-- The array has entries of long names, the first one with the flag, whose numbers go down by one
to that of the last entry. -/
structure IsLongNameRun (entries : List DirectoryEntry) (last : Nat) : Prop where
  length : 0 < entries.length ∧ entries.length ≤ 20
  types : ∀ entry ∈ entries, entry.entryType = .vfatLongName
  numbers : entries.IsChain fun first second => maskedNumber second + 1 = maskedNumber first
  first : ∀ entry ∈ entries.head?, entry.vfatSequenceNumber &&& 0x40 ≠ 0
  last : ∀ entry ∈ entries.getLast?, maskedNumber entry = last

/-! ### The steps -/

/-- The body of the loop was run for entries, one after the other and without an error, from the
start of the function on. The entries may be anywhere in the image. -/
inductive Processes
    (process : DirectoryReadState → DirectoryEntry → Int → Except Error DirectoryReadState)
    (image : List UInt8) (format : FileSystemFormat) :
    List DirectoryEntry → DirectoryReadState → Prop where
  | start : Processes process image format [] start
  | entry {entries : List DirectoryEntry} {s s' : DirectoryReadState} {offset : Int}
      {entry : DirectoryEntry} : Processes process image format entries s →
      readFileIOHandle image offset format = .ok (some entry) → entry.entryType ≠ .unallocated →
      process s entry offset = .ok s' →
      Processes process image format (entries ++ [entry]) (s'.appendEntry offset)

/-- What the treatment of an entry does to the array and the last sequence number. -/
inductive LongNameStep (isSpecial : DirectoryEntry → Bool) (entry : DirectoryEntry)
    (s s' : DirectoryReadState) : Prop where
  | special : isSpecial entry = true → s'.nameEntries = s.nameEntries →
      s'.lastVfatSequenceNumber = s.lastVfatSequenceNumber → LongNameStep isSpecial entry s s'
  | other : isSpecial entry = false → entry.entryType ≠ .shortName →
      entry.entryType ≠ .vfatLongName → s'.nameEntries = s.nameEntries →
      s'.lastVfatSequenceNumber = s.lastVfatSequenceNumber → LongNameStep isSpecial entry s s'
  | short : isSpecial entry = false → entry.entryType = .shortName → s'.nameEntries = none →
      LongNameStep isSpecial entry s s'
  | first : isSpecial entry = false → entry.entryType = .vfatLongName →
      entry.vfatSequenceNumber &&& 0x40 ≠ 0 → s'.nameEntries = some [entry.nameData] →
      s'.lastVfatSequenceNumber = maskedNumber entry → LongNameStep isSpecial entry s s'
  | next {names : List (List UInt8)} : isSpecial entry = false →
      entry.entryType = .vfatLongName → entry.vfatSequenceNumber &&& 0x40 = 0 →
      maskedNumber entry + 1 = s.lastVfatSequenceNumber → s.nameEntries = some names →
      s'.nameEntries = some (names ++ [entry.nameData]) →
      s'.lastVfatSequenceNumber = maskedNumber entry → LongNameStep isSpecial entry s s'

theorem addVfatLongName_step {isSpecial : DirectoryEntry → Bool} {entry : DirectoryEntry}
    {s s' : DirectoryReadState} (hspecial : isSpecial entry = false)
    (htype : entry.entryType = .vfatLongName) (h : s.addVfatLongName entry = .ok s') :
    LongNameStep isSpecial entry s s' := by
  unfold addVfatLongName at h
  dsimp only at h
  split at h
  · next hflag =>
    obtain rfl := Except.ok.inj h
    exact .first hspecial htype hflag rfl rfl
  next hflag =>
  split at h
  · cases h
  next hnumber =>
  split at h
  · cases h
  next names hnames =>
  obtain rfl := Except.ok.inj h
  exact .next hspecial htype (not_not.mp hflag) (not_not.mp hnumber) hnames rfl rfl

/-- The array and the last sequence number are as before. -/
def KeepsLongName (s s' : DirectoryReadState) : Prop :=
  s'.nameEntries = s.nameEntries ∧ s'.lastVfatSequenceNumber = s.lastVfatSequenceNumber

theorem setVolumeLabelEntry_keeps {entry : DirectoryEntry} {s s' : DirectoryReadState}
    (h : s.setVolumeLabelEntry entry = .ok s') : KeepsLongName s s' := by
  obtain ⟨directory, rfl, -⟩ := setSpecialEntry_eq (Or.inr (Or.inr h))
  exact ⟨rfl, rfl⟩

theorem addExfatDataStream_keeps {entry : DirectoryEntry} {s s' : DirectoryReadState}
    (h : s.addExfatDataStream entry = .ok s') : KeepsLongName s s' := by
  unfold addExfatDataStream at h
  split at h
  · cases h
  split at h
  · cases h
  · obtain rfl := Except.ok.inj h
    exact ⟨rfl, rfl⟩

theorem addExfatFileEntryName_keeps {entry : DirectoryEntry} {s s' : DirectoryReadState}
    (h : s.addExfatFileEntryName entry = .ok s') : KeepsLongName s s' := by
  unfold addExfatFileEntryName at h
  split at h
  · cases h
  · obtain rfl := Except.ok.inj h
    exact ⟨rfl, rfl⟩

/-- The step of `libfsfat_file_system_read_directory`. -/
theorem processEntry_step {entry : DirectoryEntry} {s s' : DirectoryReadState} {offset : Int}
    (h : s.processEntry entry offset = .ok s') : LongNameStep isSpecialEntry entry s s' := by
  by_cases hdot : HasDotName entry.nameData
  · obtain ⟨-, hnames, -, hlast⟩ := processEntry_of_dotName hdot h
    exact .special (by simp [isSpecialEntry, hdot]) hnames hlast
  rw [processEntry_of_not_dotName hdot] at h
  have hspecial (htype : entry.entryType ≠ .shortName) : isSpecialEntry entry = false := by
    simp [isSpecialEntry, hdot, htype]
  have hother (hshort : entry.entryType ≠ .shortName) (hlong : entry.entryType ≠ .vfatLongName)
      (hkeeps : KeepsLongName s s') : LongNameStep isSpecialEntry entry s s' :=
    .other (hspecial hshort) hshort hlong hkeeps.1 hkeeps.2
  split at h
  · next htype =>
    split at h
    · next hlabel =>
      obtain ⟨hnames, hlast⟩ := setVolumeLabelEntry_keeps h
      exact .special (by simp [isSpecialEntry, htype, hlabel]) hnames hlast
    · next hlabel =>
      obtain ⟨named, -, rfl⟩ := addShortName_eq_ok h
      exact .short (by simpa [isSpecialEntry, hdot, htype] using hlabel) htype rfl
  · next htype => exact addVfatLongName_step (hspecial (by rw [htype]; decide)) htype h
  · next htype =>
    exact hother (by rw [htype]; decide) (by rw [htype]; decide) (addExfatDataStream_keeps h)
  · next htype =>
    obtain rfl := Except.ok.inj h
    exact hother (by rw [htype]; decide) (by rw [htype]; decide) ⟨rfl, rfl⟩
  · next htype =>
    exact hother (by rw [htype]; decide) (by rw [htype]; decide) (addExfatFileEntryName_keeps h)
  · next htype =>
    exact hother (by rw [htype]; decide) (by rw [htype]; decide) (setVolumeLabelEntry_keeps h)
  · next hshort hlong _ _ _ _ =>
    obtain rfl := Except.ok.inj h
    exact hother hshort hlong ⟨rfl, rfl⟩

/-- The step of `libfsfat_file_system_read_directory_by_range`. -/
theorem processEntryByRange_step {entry : DirectoryEntry} {s s' : DirectoryReadState}
    {offset : Int} (h : s.processEntryByRange entry offset = .ok s') :
    LongNameStep isSpecialEntryByRange entry s s' := by
  have hspecial (htype : entry.entryType ≠ .shortName) :
      isSpecialEntryByRange entry = false := by
    simp [isSpecialEntryByRange, htype]
  unfold processEntryByRange at h
  dsimp only at h
  split at h
  · next htype =>
    split at h
    · next hlabel =>
      obtain ⟨hnames, hlast⟩ := setVolumeLabelEntry_keeps h
      exact .special (by simp [isSpecialEntryByRange, htype, hlabel]) hnames hlast
    · next hlabel =>
      obtain ⟨named, -, rfl⟩ := addShortName_eq_ok h
      exact .short (by simp [isSpecialEntryByRange, hlabel]) htype rfl
  · next htype => exact addVfatLongName_step (hspecial (by rw [htype]; decide)) htype h
  · next hshort hlong =>
    obtain rfl := Except.ok.inj h
    exact .other (hspecial hshort) hshort hlong rfl rfl

/-! ### The invariant -/

/-- An entry that was read for a part of a long name. -/
structure IsSegmentEntry (entry : DirectoryEntry) : Prop where
  type : entry.entryType = .vfatLongName
  number : 1 ≤ maskedNumber entry ∧ maskedNumber entry ≤ 20
  nameData : entry.nameData.length = 32

theorem maskedNumber_eq (entry : DirectoryEntry) :
    maskedNumber entry = entry.vfatSequenceNumber % 32 :=
  Nat.and_two_pow_sub_one_eq_mod _ 5

/-- The first byte of a part of a long name is a sequence number. -/
theorem isSequenceNumber_of_entryTypeOf {data : List UInt8} {format : FileSystemFormat}
    (h : entryTypeOf data format = .vfatLongName) : IsSequenceNumber (byteAt data 0) := by
  unfold entryTypeOf at h
  split at h
  · split at h <;> cases h
  split at h
  · cases h
  split at h
  · next hnumber => exact hnumber
  · split at h <;> cases h

theorem length_nameData_readVfatLongName {data : List UInt8}
    (hlength : data.length = directoryEntrySize) :
    (readVfatLongName data).nameData.length = 32 := by
  have hsize : directoryEntrySize = 32 := rfl
  simp only [readVfatLongName, nameDataOf, field, List.length_append, List.length_take,
    List.length_drop, List.length_replicate, hlength, hsize]
  rfl

/-- What is read from an image as a part of a long name. -/
theorem isSegmentEntry_of_read {image : List UInt8} {format : FileSystemFormat} {offset : Int}
    {entry : DirectoryEntry} (h : readFileIOHandle image offset format = .ok (some entry))
    (htype : entry.entryType = .vfatLongName) : IsSegmentEntry entry := by
  unfold readFileIOHandle at h
  split at h
  · cases h
  next data hdata =>
  have hlength := length_of_readAt hdata
  have hlong : entryTypeOf data format = .vfatLongName ∧ entry = readVfatLongName data := by
    unfold readData at h
    split at h
    · cases h
    · obtain rfl := Option.some.inj (Except.ok.inj h)
      cases htype
    · next hlong => exact ⟨hlong, (Option.some.inj (Except.ok.inj h)).symm⟩
    · obtain rfl := Option.some.inj (Except.ok.inj h)
      cases htype
    · obtain rfl := Option.some.inj (Except.ok.inj h)
      cases htype
    · obtain rfl := Option.some.inj (Except.ok.inj h)
      cases htype
    · obtain ⟨label, hlabel, heq⟩ := map_eq_ok_iff.mp h
      obtain rfl := Option.some.inj heq
      unfold readExfatVolumeLabel at hlabel
      split at hlabel
      · cases hlabel
      · obtain rfl := Except.ok.inj hlabel
        cases htype
    · next hne _ _ _ _ =>
      obtain rfl := Option.some.inj (Except.ok.inj h)
      exact absurd htype hne
  obtain ⟨hlong, rfl⟩ := hlong
  refine ⟨rfl, ?_, length_nameData_readVfatLongName hlength⟩
  have hnumber : IsSequenceNumber (readVfatLongName data).vfatSequenceNumber :=
    isSequenceNumber_of_entryTypeOf hlong
  rw [maskedNumber_eq]
  rcases hnumber with hnumber | hnumber <;> omega

/-- Numbers that go down by one from the first entry to the last. -/
theorem add_length_of_isChain {first last : DirectoryEntry} {entries : List DirectoryEntry}
    (h : (first :: entries).IsChain fun first second =>
      maskedNumber second + 1 = maskedNumber first)
    (hlast : (first :: entries).getLast? = some last) :
    maskedNumber last + entries.length = maskedNumber first := by
  induction entries generalizing first with
  | nil =>
    rw [List.getLast?_singleton] at hlast
    rw [Option.some.inj hlast]
    rfl
  | cons second entries ih =>
    obtain ⟨hnumber, hrest⟩ := List.isChain_cons_cons.mp h
    rw [List.getLast?_cons_cons] at hlast
    have hadd := ih hrest hlast
    rw [List.length_cons]
    omega

/-- The array of the model has the name data of the entries, and they are a run whose last number
is kept, all of them parts of a long name. -/
structure HoldsArray (array : Option (List DirectoryEntry)) (s : DirectoryReadState) : Prop where
  names : s.nameEntries = array.map fun entries => entries.map (·.nameData)
  segments : ∀ entries, array = some entries → ∀ entry ∈ entries, IsSegmentEntry entry
  run : ∀ entries, array = some entries → IsLongNameRun entries s.lastVfatSequenceNumber

/-- A run of one entry. -/
theorem isLongNameRun_singleton {entry : DirectoryEntry} (h : IsSegmentEntry entry)
    (hflag : entry.vfatSequenceNumber &&& 0x40 ≠ 0) :
    IsLongNameRun [entry] (maskedNumber entry) where
  length := by simp
  types := List.forall_mem_singleton.mpr h.type
  numbers := List.isChain_singleton entry
  first := fun e he => Option.some.inj he ▸ hflag
  last := fun e he => Option.some.inj he ▸ rfl

/-- A run is continued by the entry with the next lower number: the first number is twenty at most,
so there is no room for more than twenty entries. -/
theorem IsLongNameRun.concat {entries : List DirectoryEntry} {last : Nat}
    (h : IsLongNameRun entries last) (hsegments : ∀ e ∈ entries, IsSegmentEntry e)
    {entry : DirectoryEntry} (hentry : IsSegmentEntry entry)
    (hnumber : maskedNumber entry + 1 = last) :
    IsLongNameRun (entries ++ [entry]) (maskedNumber entry) := by
  obtain ⟨first, rest, rfl⟩ := List.exists_cons_of_length_pos h.length.1
  have hchain : (first :: rest ++ [entry]).IsChain fun first second =>
      maskedNumber second + 1 = maskedNumber first := by
    refine List.isChain_append.mpr ⟨h.numbers, List.isChain_singleton entry, ?_⟩
    intro previous hprevious next hnext
    rw [← Option.some.inj hnext, h.last previous hprevious, hnumber]
  have hgetLast : (first :: (rest ++ [entry])).getLast? = some entry := by
    rw [← List.cons_append, List.getLast?_append]
    rfl
  have hadd : maskedNumber entry + (rest ++ [entry]).length = maskedNumber first :=
    add_length_of_isChain hchain hgetLast
  have hfirst := (hsegments first List.mem_cons_self).number.2
  have hlow := hentry.number.1
  have hlength : (first :: rest ++ [entry]).length = rest.length + 2 := by simp
  rw [List.length_append, List.length_singleton] at hadd
  refine ⟨by omega, ?_, hchain, ?_, ?_⟩
  · intro e he
    rcases List.mem_append.mp he with he | he
    · exact h.types e he
    · rw [List.mem_singleton.mp he]
      exact hentry.type
  · exact h.first
  · intro e he
    have heq := he.symm.trans hgetLast
    rw [Option.some.inj heq]

/-- A step without an error keeps the invariant. -/
theorem HoldsArray.step {isSpecial : DirectoryEntry → Bool} {array : Option (List DirectoryEntry)}
    {entry : DirectoryEntry} {s s' : DirectoryReadState} (h : HoldsArray array s)
    (hentry : entry.entryType = .vfatLongName → IsSegmentEntry entry)
    (hstep : LongNameStep isSpecial entry s s') :
    HoldsArray (arrayAfter isSpecial array entry) s' := by
  have hkeeps (hnames : s'.nameEntries = s.nameEntries)
      (hlast : s'.lastVfatSequenceNumber = s.lastVfatSequenceNumber) : HoldsArray array s' :=
    ⟨hnames.trans h.names, h.segments, fun entries harray => hlast ▸ h.run entries harray⟩
  cases hstep with
  | special hspecial hnames hlast =>
    rw [arrayAfter, if_pos hspecial]
    exact hkeeps hnames hlast
  | other hspecial hshort hlong hnames hlast =>
    have harray : arrayAfter isSpecial array entry = array := by
      rw [arrayAfter, if_neg (by rw [hspecial]; decide)]
      split
      · next htype => exact absurd htype hshort
      · next htype => exact absurd htype hlong
      · rfl
    rw [harray]
    exact hkeeps hnames hlast
  | short hspecial htype hnames =>
    have harray : arrayAfter isSpecial array entry = none := by
      rw [arrayAfter, if_neg (by rw [hspecial]; decide), htype]
    rw [harray]
    exact ⟨hnames, nofun, nofun⟩
  | first hspecial htype hflag hnames hlast =>
    have harray : arrayAfter isSpecial array entry = some [entry] := by
      rw [arrayAfter, if_neg (by rw [hspecial]; decide), htype]
      exact if_pos hflag
    rw [harray]
    refine ⟨hnames, ?_, ?_⟩
    · intro entries heq
      rw [← Option.some.inj heq]
      exact List.forall_mem_singleton.mpr (hentry htype)
    · intro entries heq
      rw [← Option.some.inj heq, hlast]
      exact isLongNameRun_singleton (hentry htype) hflag
  | @next names hspecial htype hflag hnumber hold hnames hlast =>
    have harray : arrayAfter isSpecial array entry = array.map (· ++ [entry]) := by
      rw [arrayAfter, if_neg (by rw [hspecial]; decide), htype]
      exact if_neg (not_not.mpr hflag)
    obtain ⟨entries, rfl, hmap⟩ := Option.map_eq_some_iff.mp (h.names.symm.trans hold)
    have hsegments := h.segments entries rfl
    rw [harray, Option.map_some]
    refine ⟨?_, ?_, ?_⟩
    · rw [hnames, ← hmap, Option.map_some, List.map_append]
      rfl
    · intro entries' heq
      rw [← Option.some.inj heq]
      intro e he
      rcases List.mem_append.mp he with he | he
      · exact hsegments e he
      · rw [List.mem_singleton.mp he]
        exact hentry htype
    · intro entries' heq
      rw [← Option.some.inj heq, hlast]
      exact (h.run entries rfl).concat hsegments (hentry htype) hnumber

/-- The invariant holds behind all entries that were treated. -/
theorem Processes.holdsArray
    {process : DirectoryReadState → DirectoryEntry → Int → Except Error DirectoryReadState}
    {isSpecial : DirectoryEntry → Bool} {image : List UInt8} {format : FileSystemFormat}
    (hstep : ∀ {s s' entry offset}, process s entry offset = .ok s' →
      LongNameStep isSpecial entry s s') {entries : List DirectoryEntry} {s : DirectoryReadState}
    (h : Processes process image format entries s) :
    HoldsArray (arrayBehind isSpecial entries) s := by
  induction h with
  | start => exact ⟨rfl, nofun, nofun⟩
  | entry _ hread _ hprocess ih =>
    have harray := ih.step (isSegmentEntry_of_read hread) (hstep hprocess)
    rw [arrayBehind, List.foldl_append]
    exact ⟨harray.names, harray.segments, harray.run⟩

/-! ### The points of a run -/

section Points

variable {process : DirectoryReadState → DirectoryEntry → Int → Except Error DirectoryReadState}
  {image : List UInt8} {format : FileSystemFormat}

/-- The loop over a range treats entries, and no others change the state. -/
theorem Processes.readEntries {entries : List DirectoryEntry} {s s' : DirectoryReadState}
    (h : Processes process image format entries s) {count : Nat} {offset : Int}
    {terminated : Bool}
    (hread : FsFat.readEntries image format process count offset s = .ok (s', terminated)) :
    ∃ more, Processes process image format (entries ++ more) s' := by
  induction count generalizing entries offset s with
  | zero =>
    obtain ⟨rfl, -⟩ := Prod.mk.inj (Except.ok.inj hread)
    exact ⟨[], by rwa [List.append_nil]⟩
  | succ count ih =>
    rw [FsFat.readEntries] at hread
    split at hread
    · cases hread
    · obtain ⟨rfl, -⟩ := Prod.mk.inj (Except.ok.inj hread)
      exact ⟨[], by rwa [List.append_nil]⟩
    next entry hentry =>
    split at hread
    · exact ih h hread
    next hallocated =>
    split at hread
    · cases hread
    next next hprocess =>
    obtain ⟨more, hmore⟩ := ih (h.entry hentry hallocated hprocess) hread
    exact ⟨entry :: more, by rwa [List.append_assoc] at hmore⟩

/-- A point of `libfsfat_file_system_read_directory` between two entries: the loop over the
clusters came to a cluster, and the loop over the entries of the cluster past some of them. -/
def IsPointOfReadDirectory (fs : FileSystem) (image : List UInt8) (clusterNumber : Nat)
    (s : DirectoryReadState) : Prop :=
  ∃ last tree w count terminated,
    lastClusterNumber fs.ioHandle.fileSystemFormat = .ok last ∧
    BlockTree.create fs.ioHandle.volumeSize fs.ioHandle.clusterBlockSize = .ok tree ∧
    Loop.Reachable (chainStep fs last (readDirectoryVisitor fs image))
      ⟨clusterNumber, tree, [], (.start, false)⟩ w ∧
    FsFat.readEntries image fs.ioHandle.fileSystemFormat processEntry count
      (clusterOffset fs.ioHandle w.clusterNumber) w.value.1 = .ok (s, terminated)

/-- A point of `libfsfat_file_system_read_directory_by_range` between two entries. -/
def IsPointOfReadDirectoryByRange (fs : FileSystem) (image : List UInt8) (fileOffset : Int)
    (s : DirectoryReadState) : Prop :=
  ∃ count terminated,
    FsFat.readEntries image fs.ioHandle.fileSystemFormat processEntryByRange count fileOffset
      .start = .ok (s, terminated)

/-- The loop over the clusters treats the entries of each cluster behind those of the others. -/
theorem exists_processes_of_reachable {fs : FileSystem} {last : Nat}
    {w w' : ChainWalk (DirectoryReadState × Bool)}
    (h : Loop.Reachable (chainStep fs last (readDirectoryVisitor fs image)) w w')
    (hw : ∃ entries, Processes processEntry image fs.ioHandle.fileSystemFormat entries w.value.1) :
    ∃ entries, Processes processEntry image fs.ioHandle.fileSystemFormat entries w'.value.1 := by
  refine Loop.Reachable.invariant (I := fun w => ∃ entries,
    Processes processEntry image fs.ioHandle.fileSystemFormat entries w.value.1) h hw ?_
  rintro s s' ⟨entries, hentries⟩ hstep
  unfold chainStep at hstep
  dsimp only at hstep
  split at hstep
  · cases hstep
  split at hstep
  · cases hstep
  next tree _ =>
  unfold afterVisit at hstep
  split at hstep
  · cases hstep
  · cases hstep
  next value hvisit =>
  split at hstep
  · cases hstep
  injection hstep with hstep
  subst hstep
  unfold readDirectoryVisitor at hvisit
  dsimp only at hvisit
  split at hvisit
  · cases hvisit
  next s₁ terminated hread =>
  obtain ⟨more, hmore⟩ := hentries.readEntries hread
  refine ⟨entries ++ more, ?_⟩
  rwa [← (Prod.mk.inj (Except.ok.inj hvisit)).1]

end Points

/-- The array of a state, behind the entries that were treated: it is absent or a run, and putting
its long name together, for any entry without a name, returns and stays inside its buffer. -/
structure LongNameStaysInBounds (isSpecial : DirectoryEntry → Bool)
    (entries : List DirectoryEntry) (s : DirectoryReadState) : Prop where
  array : arrayBehind isSpecial entries = none ∨
    ∃ run, arrayBehind isSpecial entries = some run ∧ IsLongNameRun run s.lastVfatSequenceNumber
  names : s.nameEntries = (arrayBehind isSpecial entries).map fun run => run.map (·.nameData)
  call : ∀ nameEntries, s.nameEntries = some nameEntries →
    ∀ (freshMemory : Nat → UInt8) (entry : DirectoryEntry), entry.name = none →
      ∃ written,
        entry.writeNameFromVfatLongFileNameEntries freshMemory nameEntries = .ok written ∧
          StaysInBuffer entry nameEntries written

theorem HoldsArray.staysInBounds {isSpecial : DirectoryEntry → Bool}
    {entries : List DirectoryEntry} {s : DirectoryReadState}
    (h : HoldsArray (arrayBehind isSpecial entries) s) :
    LongNameStaysInBounds isSpecial entries s where
  array := by
    cases harray : arrayBehind isSpecial entries with
    | none => exact Or.inl rfl
    | some run => exact Or.inr ⟨run, rfl, h.run run harray⟩
  names := h.names
  call := by
    intro nameEntries hnames freshMemory entry hname
    obtain ⟨run, harray, rfl⟩ := Option.map_eq_some_iff.mp (h.names.symm.trans hnames)
    have hlength : ∀ nameData ∈ run.map (·.nameData), nameData.length = 32 := by
      intro nameData hmem
      obtain ⟨segment, hsegment, rfl⟩ := List.mem_map.mp hmem
      exact (h.segments run harray segment hsegment).nameData
    have hcount := (h.run run harray).length
    rw [← List.length_map (·.nameData)] at hcount
    exact writeName_staysInBuffer freshMemory hname hlength hcount

/-- At every point of reading a directory, by its clusters or by a range, the entries of the long
name stay within their bounds, whatever the image has. -/
theorem long_name_stays_in_bounds (fs : FileSystem) (image : List UInt8) :
    (∀ clusterNumber s, IsPointOfReadDirectory fs image clusterNumber s →
      ∃ entries, Processes processEntry image fs.ioHandle.fileSystemFormat entries s ∧
        LongNameStaysInBounds isSpecialEntry entries s) ∧
    ∀ fileOffset s, IsPointOfReadDirectoryByRange fs image fileOffset s →
      ∃ entries, Processes processEntryByRange image fs.ioHandle.fileSystemFormat entries s ∧
        LongNameStaysInBounds isSpecialEntryByRange entries s := by
  constructor
  · rintro clusterNumber s ⟨last, tree, w, count, terminated, -, -, hreachable, hread⟩
    obtain ⟨entries, hentries⟩ := exists_processes_of_reachable hreachable ⟨[], .start⟩
    obtain ⟨more, hmore⟩ := hentries.readEntries hread
    exact ⟨_, hmore, (hmore.holdsArray processEntry_step).staysInBounds⟩
  · rintro fileOffset s ⟨count, terminated, hread⟩
    obtain ⟨entries, hentries⟩ := Processes.start.readEntries hread
    exact ⟨_, hentries, (hentries.holdsArray processEntryByRange_step).staysInBounds⟩

/-- The last part of a long name of one entry. -/
def longNameImage : List UInt8 :=
  0x41 :: List.replicate 10 0x41 ++ 0x0f :: 0 :: 0 :: List.replicate 12 0 ++ List.replicate 6 0

theorem long_name_stays_in_bounds_one_entry :
    ∃ s entries, IsPointOfReadDirectoryByRange selfLinkedFileSystem longNameImage 0 s ∧
      s.nameEntries.isSome = true ∧ LongNameStaysInBounds isSpecialEntryByRange entries s := by
  have hresult : (FsFat.readEntries longNameImage .fat16 processEntryByRange 1 0
      .start).toOption.map (·.1.nameEntries.isSome) = some true := by decide +kernel
  cases hread : FsFat.readEntries longNameImage .fat16 processEntryByRange 1 0 .start with
  | error e =>
    rw [hread] at hresult
    cases hresult
  | ok result =>
    rw [hread] at hresult
    have hpoint : IsPointOfReadDirectoryByRange selfLinkedFileSystem longNameImage 0 result.1 :=
      ⟨1, result.2, hread⟩
    obtain ⟨entries, -, hbounds⟩ :=
      (long_name_stays_in_bounds selfLinkedFileSystem longNameImage).2 0 result.1 hpoint
    exact ⟨result.1, entries, hpoint, Option.some.inj hresult, hbounds⟩

end DirectoryReadState

end FsFat
