import FsFat.DirectoryListing

/-!
The long names of a directory of FAT-12, FAT-16 and FAT-32, for every content.
The entries of a long name are collected in an array, which only the first entry
of a long name and a short name that is listed begin anew. So a short name gets
the long name that began last behind the short name before it, whether or not
that is complete and adjacent, and entries that start as the name of the
directory itself or of its parent are never part of it.
-/

namespace FsFat

open Bytes DirectoryEntry DirectoryReadState

/-! ### Entries of long names -/

/-- The slot has a VFAT long name entry. -/
def IsLongNameEntry (slot : Slot) : Prop := entryTypeOf slot.2 .fat16 = .vfatLongName

instance (slot : Slot) : Decidable (IsLongNameEntry slot) := inferInstanceAs (Decidable (_ = _))

/-- The part of a long name that a slot has. -/
def longNameData (slot : Slot) : List UInt8 := (readVfatLongName slot.2).nameData

/-- The sequence number of a slot, with the flag of the first entry. -/
def sequenceNumberOf (slot : Slot) : Nat := byteAt slot.2 0

/-- The sequence numbers of a long name of `k` entries, in their order. -/
def runNumbers : Nat → List Nat
  | 0 => []
  | k + 1 => ((k + 1) ||| 0x40) :: (List.range k).reverse.map (· + 1)

/-- The entries of a complete long name. -/
structure IsCompleteRun (run : List Slot) : Prop where
  length : 1 ≤ run.length ∧ run.length ≤ 20
  entries : ∀ slot ∈ run, IsLongNameEntry slot
  numbers : run.map sequenceNumberOf = runNumbers run.length

/-- The slots end with a complete long name. -/
def EndsWithRun (before run : List Slot) : Prop := run <:+ before ∧ IsCompleteRun run

/-- An entry that begins a long name. -/
def BeginsLongName (slot : Slot) : Prop :=
  IsLongNameEntry slot ∧ ¬ HasDotName (longNameData slot) ∧ sequenceNumberOf slot &&& 0x40 ≠ 0

/-- A long name began behind the last short name that is listed. -/
def HasPendingName (before : List Slot) : Prop :=
  ∃ xs first rest, before = xs ++ first :: rest ∧ BeginsLongName first ∧
    ∀ slot ∈ rest, ¬ IsListed slot

theorem IsListed.not_longNameEntry {slot : Slot} (h : IsListed slot) : ¬ IsLongNameEntry slot := by
  intro hlong
  have htype := h.1.symm.trans hlong
  cases htype

theorem not_hasPendingName_nil : ¬ HasPendingName [] := by
  rintro ⟨xs, first, rest, heq, _⟩
  simp at heq

theorem hasPendingName_concat {before : List Slot} {slot : Slot} :
    HasPendingName (before ++ [slot]) ↔
      BeginsLongName slot ∨ HasPendingName before ∧ ¬ IsListed slot := by
  constructor
  · rintro ⟨xs, first, rest, heq, hfirst, hrest⟩
    rcases List.eq_nil_or_concat rest with rfl | ⟨init, final, rfl⟩
    · obtain ⟨_, hslot⟩ := List.append_inj' heq rfl
      injection hslot with hslot
      exact .inl (hslot ▸ hfirst)
    · rw [List.concat_eq_append, ← List.cons_append, ← List.append_assoc] at heq
      obtain ⟨hbefore, hslot⟩ := List.append_inj' heq rfl
      injection hslot with hslot
      refine .inr ⟨⟨xs, first, init, hbefore, hfirst, fun t ht => hrest t ?_⟩, ?_⟩
      · simp [ht]
      · exact hslot ▸ hrest final (by simp)
  · rintro (hfirst | ⟨⟨xs, first, rest, rfl, hfirst, hrest⟩, hslot⟩)
    · exact ⟨before, slot, [], rfl, hfirst, fun t ht => absurd ht List.not_mem_nil⟩
    · refine ⟨xs, first, rest ++ [slot], by simp, hfirst, fun t ht => ?_⟩
      rcases List.mem_append.mp ht with ht | ht
      · exact hrest t ht
      · rwa [List.mem_singleton.mp ht]

/-- The sequence numbers of a complete long name: only the first has the flag. -/
theorem IsCompleteRun.flags {run : List Slot} (h : IsCompleteRun run) :
    ∃ first rest, run = first :: rest ∧ sequenceNumberOf first &&& 0x40 ≠ 0 ∧
      ∀ slot ∈ rest, sequenceNumberOf slot &&& 0x40 = 0 := by
  obtain ⟨first, rest, rfl⟩ : ∃ first rest, run = first :: rest := by
    cases run with
    | nil =>
      have hpos := h.length.1
      simp at hpos
    | cons first rest => exact ⟨first, rest, rfl⟩
  have hnumbers := h.numbers
  have hle := h.length.2
  simp only [List.length_cons, List.map_cons, runNumbers] at hnumbers hle
  injection hnumbers with hfirst hrest
  refine ⟨first, rest, rfl, ?_, fun slot hslot => ?_⟩
  · rw [hfirst, Nat.and_or_distrib_right]
    simp
  · have hmem := List.mem_map_of_mem (f := sequenceNumberOf) hslot
    rw [hrest] at hmem
    obtain ⟨j, hj, heq⟩ := List.mem_map.mp hmem
    rw [List.mem_reverse, List.mem_range] at hj
    rw [← heq]
    exact (sequenceNumber_of_lt (by omega)).1

/-- The slot in front of the short name is a part of the long name. -/
theorem EndsWithRun.last_isLongNameEntry {run : List Slot} (before : List Slot) {slot : Slot}
    (h : EndsWithRun (before ++ [slot]) run) : IsLongNameEntry slot := by
  obtain ⟨⟨xs, heq⟩, hrun⟩ := h
  rcases List.eq_nil_or_concat run with rfl | ⟨init, final, rfl⟩
  · have hpos := hrun.length.1
    simp at hpos
  · rw [List.concat_eq_append, ← List.append_assoc] at heq
    obtain ⟨_, hfinal⟩ := List.append_inj' heq rfl
    injection hfinal with hfinal
    exact hrun.entries slot (by simp [hfinal])

/-! ### The array with the name entries -/

section NameEntries

variable {format : FileSystemFormat}

/-- The array after the entry of a slot: a listed short name takes it, the first
entry of a long name begins it, another entry of a long name is appended, and
all others leave it. -/
def nameEntriesAfter (slot : Slot) (names : Option (List (List UInt8))) :
    Option (List (List UInt8)) :=
  if IsListed slot then none
  else if ¬ IsLongNameEntry slot ∨ HasDotName (longNameData slot) then names
  else if sequenceNumberOf slot &&& 0x40 ≠ 0 then some [longNameData slot]
  else names.map (· ++ [longNameData slot])

theorem setSpecialEntry_nameEntries {entry : DirectoryEntry} {s s' : DirectoryReadState}
    (h : s.setSelfEntry entry = .ok s' ∨ s.setParentEntry entry = .ok s' ∨
      s.setVolumeLabelEntry entry = .ok s') : s'.nameEntries = s.nameEntries := by
  obtain ⟨directory, rfl, _⟩ := setSpecialEntry_eq h
  rfl

/-- The step for an entry of a long name. -/
theorem addVfatLongName_nameEntries {entry : DirectoryEntry} {s s' : DirectoryReadState}
    (h : s.addVfatLongName entry = .ok s') :
    s'.nameEntries =
      if entry.vfatSequenceNumber &&& 0x40 ≠ 0 then some [entry.nameData]
      else s.nameEntries.map (· ++ [entry.nameData]) := by
  unfold addVfatLongName at h
  dsimp only at h
  split at h
  · next hfirst =>
    injection h with h
    subst h
    rw [if_pos hfirst]
  · next hfirst =>
    rw [if_neg hfirst]
    split at h
    · cases h
    · split at h
      · cases h
      · next names hnames =>
        injection h with h
        subst h
        rw [hnames]
        rfl

/-- The step for any entry. -/
theorem processEntry_nameEntries {slot : Slot} {entry : DirectoryEntry}
    (hformat : format ≠ .exfat) (hlength : slot.2.length = directoryEntrySize)
    (hentry : readData slot.2 format = .ok (some entry))
    (hallocated : entry.entryType ≠ .unallocated) {s s' : DirectoryReadState}
    (h : s.processEntry entry slot.1 = .ok s') :
    s'.nameEntries = nameEntriesAfter slot s.nameEntries := by
  rcases readData_eq_some hformat hentry with ⟨htype, rfl⟩ | ⟨htype, rfl⟩ | ⟨_, rfl⟩
  · have hnotLong : ¬ IsLongNameEntry slot := by
      rw [IsLongNameEntry, htype]
      decide
    rw [processEntry_shortName hlength] at h
    split at h
    · next hself =>
      have hnot : ¬ IsListed slot := fun hlisted => hlisted.2.2 (.inl hself)
      rw [nameEntriesAfter, if_neg hnot, if_pos (.inl hnotLong)]
      exact setSpecialEntry_nameEntries (.inl h)
    split at h
    · next hparent =>
      have hnot : ¬ IsListed slot := fun hlisted => hlisted.2.2 (.inr hparent)
      rw [nameEntriesAfter, if_neg hnot, if_pos (.inl hnotLong)]
      exact setSpecialEntry_nameEntries (.inr (.inl h))
    split at h
    · next hlabel =>
      have hnot : ¬ IsListed slot := fun hlisted => hlabel hlisted.2.1
      rw [nameEntriesAfter, if_neg hnot, if_pos (.inl hnotLong)]
      exact setSpecialEntry_nameEntries (.inr (.inr h))
    · next hself hparent hlabel =>
      have hlisted : IsListed slot := by
        refine ⟨htype, ?_, fun hdot => hdot.elim hself hparent⟩
        simpa using hlabel
      obtain ⟨named, _, rfl⟩ := addShortName_eq_ok h
      rw [nameEntriesAfter, if_pos hlisted]
  · have hnot : ¬ IsListed slot := fun hlisted => hlisted.not_longNameEntry htype
    rw [nameEntriesAfter, if_neg hnot]
    by_cases hdot : HasDotName (longNameData slot)
    · rw [if_pos (.inr hdot)]
      exact (processEntry_of_dotName hdot h).2.1
    · have hlong : IsLongNameEntry slot := htype
      rw [if_neg (not_or.mpr ⟨not_not_intro hlong, hdot⟩)]
      rw [processEntry_of_not_dotName hdot] at h
      exact addVfatLongName_nameEntries h
  · exact absurd rfl hallocated

end NameEntries

/-! ### The array behind slots -/

/-- The array that an entry behind these slots finds. -/
def nameEntriesBehind (before : List Slot) : Option (List (List UInt8)) :=
  before.foldl (fun names slot => nameEntriesAfter slot names) none

section Behind

variable {before run : List Slot}

theorem nameEntriesBehind_concat (before : List Slot) (slot : Slot) :
    nameEntriesBehind (before ++ [slot]) = nameEntriesAfter slot (nameEntriesBehind before) := by
  rw [nameEntriesBehind, List.foldl_append]
  rfl

theorem nameEntriesAfter_first {slot : Slot} (h : BeginsLongName slot)
    (names : Option (List (List UInt8))) :
    nameEntriesAfter slot names = some [longNameData slot] := by
  obtain ⟨hlong, hdot, hflag⟩ := h
  have hnot : ¬ IsListed slot := fun hlisted => hlisted.not_longNameEntry hlong
  rw [nameEntriesAfter, if_neg hnot, if_neg (not_or.mpr ⟨not_not_intro hlong, hdot⟩), if_pos hflag]

theorem nameEntriesAfter_isSome {slot : Slot} {names : Option (List (List UInt8))} :
    (nameEntriesAfter slot names).isSome = true ↔
      BeginsLongName slot ∨ names.isSome = true ∧ ¬ IsListed slot := by
  by_cases hfirst : BeginsLongName slot
  · rw [nameEntriesAfter_first hfirst]
    simp [hfirst]
  · unfold nameEntriesAfter
    split
    · next hlisted => simp [hfirst, hlisted]
    · next hlisted =>
      split
      · simp [hfirst, hlisted]
      · next hlong =>
        rw [not_or, not_not] at hlong
        rw [if_neg fun hflag => hfirst ⟨hlong.1, hlong.2, hflag⟩]
        simp [hfirst, hlisted]

/-- There is an array exactly when a long name is pending. -/
theorem nameEntriesBehind_isSome (before : List Slot) :
    (nameEntriesBehind before).isSome = true ↔ HasPendingName before := by
  induction before using List.reverseRecOn with
  | nil =>
    refine iff_of_false ?_ not_hasPendingName_nil
    simp [nameEntriesBehind]
  | append_singleton before slot ih =>
    rw [nameEntriesBehind_concat, nameEntriesAfter_isSome, hasPendingName_concat, ih]

/-- No part of a long name starts as the name of the directory itself or of its
parent. -/
theorem nameEntriesBehind_not_dotName {names : List (List UInt8)}
    (h : nameEntriesBehind before = some names) : ∀ data ∈ names, ¬ HasDotName data := by
  induction before using List.reverseRecOn generalizing names with
  | nil => cases h
  | append_singleton before slot ih =>
    rw [nameEntriesBehind_concat] at h
    unfold nameEntriesAfter at h
    split at h
    · cases h
    split at h
    · exact ih h
    next hlong =>
    have hdot : ¬ HasDotName (longNameData slot) := (not_or.mp hlong).2
    split at h
    · injection h with h
      subst h
      intro data hdata
      rwa [List.mem_singleton.mp hdata]
    · obtain ⟨old, hold, rfl⟩ := Option.map_eq_some_iff.mp h
      intro data hdata
      rcases List.mem_append.mp hdata with hdata | hdata
      · exact ih hold data hdata
      · rwa [List.mem_singleton.mp hdata]

/-- The entries of a long name behind its first are appended one by one. -/
theorem foldl_nameEntriesAfter {rest : List Slot} {names : List (List UInt8)}
    (h : ∀ slot ∈ rest, IsLongNameEntry slot ∧ ¬ HasDotName (longNameData slot) ∧
      sequenceNumberOf slot &&& 0x40 = 0) :
    rest.foldl (fun names slot => nameEntriesAfter slot names) (some names) =
      some (names ++ rest.map longNameData) := by
  induction rest generalizing names with
  | nil => simp
  | cons slot rest ih =>
    obtain ⟨⟨hlong, hdot, hflag⟩, hrest⟩ := List.forall_mem_cons.mp h
    have hnot : ¬ IsListed slot := fun hlisted => hlisted.not_longNameEntry hlong
    have hslot : nameEntriesAfter slot (some names) = some (names ++ [longNameData slot]) := by
      rw [nameEntriesAfter, if_neg hnot, if_neg (not_or.mpr ⟨not_not_intro hlong, hdot⟩),
        if_neg (not_not_intro hflag)]
      rfl
    rw [List.foldl_cons, hslot, ih hrest, List.map_cons, List.append_assoc, List.singleton_append]

/-- A complete long name without such a part is found as it is. -/
theorem nameEntriesBehind_of_run (h : EndsWithRun before run)
    (hdot : ∀ slot ∈ run, ¬ HasDotName (longNameData slot)) :
    nameEntriesBehind before = some (run.map longNameData) := by
  obtain ⟨⟨xs, rfl⟩, hrun⟩ := h
  obtain ⟨first, rest, rfl, hfirst, hrest⟩ := hrun.flags
  obtain ⟨hlongFirst, hlongRest⟩ := List.forall_mem_cons.mp hrun.entries
  obtain ⟨hdotFirst, hdotRest⟩ := List.forall_mem_cons.mp hdot
  rw [nameEntriesBehind, List.foldl_append, List.foldl_cons,
    nameEntriesAfter_first ⟨hlongFirst, hdotFirst, hfirst⟩, foldl_nameEntriesAfter fun slot hslot =>
      ⟨hlongRest slot hslot, hdotRest slot hslot, hrest slot hslot⟩]
  rfl

/-- A short name behind these slots gets a long name exactly when they end with
a complete one, and then it gets that one. -/
structure AttachesRun (before : List Slot) (names : Option (List (List UInt8))) : Prop where
  isSome_iff : names.isSome = true ↔ ∃ run, EndsWithRun before run
  eq_run : ∀ run, EndsWithRun before run → names = some (run.map longNameData)

/-- It is so exactly when a long name that is pending is complete and adjacent,
and no entry of a complete long name is taken for one of the special names. -/
theorem attachesRun_iff (before : List Slot) :
    AttachesRun before (nameEntriesBehind before) ↔
      (HasPendingName before → ∃ run, EndsWithRun before run) ∧
        ∀ run, EndsWithRun before run → ∀ slot ∈ run, ¬ HasDotName (longNameData slot) := by
  constructor
  · rintro ⟨hsome, hrun⟩
    refine ⟨fun hpending => hsome.mp ((nameEntriesBehind_isSome before).mpr hpending), ?_⟩
    intro run hends slot hslot
    exact nameEntriesBehind_not_dotName (hrun run hends) _ (List.mem_map_of_mem hslot)
  · rintro ⟨hpending, hdot⟩
    have hrun : ∀ run, EndsWithRun before run →
        nameEntriesBehind before = some (run.map longNameData) :=
      fun run hends => nameEntriesBehind_of_run hends (hdot run hends)
    refine ⟨⟨fun hsome => hpending ((nameEntriesBehind_isSome before).mp hsome), ?_⟩, hrun⟩
    rintro ⟨run, hends⟩
    rw [hrun run hends]
    rfl

end Behind

/-! ### The names of a directory -/

section Names

variable {format : FileSystemFormat}

/-- The file entry of a slot with a short name, with the long name of the array
if there is one. -/
def fileEntryOf (slot : Slot) (names : Option (List (List UInt8))) : Except Error DirectoryEntry :=
  match names with
  | none => .ok (withIdentifier (readShortName slot.2) slot.1)
  | some names =>
    (withIdentifier (readShortName slot.2) slot.1).getNameFromVfatLongFileNameEntries names

/-- A short name that is added is the file entry with the long name of the array. -/
theorem addShortName_fileEntry {slot : Slot} {s s' : DirectoryReadState}
    (h : s.addShortName (readShortName slot.2) slot.1 = .ok s') :
    s'.nameEntries = none ∧ ∃ added, fileEntryOf slot s.nameEntries = .ok added ∧
      s'.directory.fileEntries = s.directory.fileEntries ++ [added] := by
  cases hnames : s.nameEntries with
  | none =>
    rw [addShortName_of_none hnames] at h
    injection h with h
    subst h
    exact ⟨rfl, _, rfl, rfl⟩
  | some names =>
    rw [addShortName_of_some hnames, map_eq_ok_iff] at h
    obtain ⟨named, hnamed, rfl⟩ := h
    exact ⟨rfl, named, hnamed, rfl⟩

/-- The step for a short name that is listed. -/
theorem processEntry_listed {slot : Slot} (hlength : slot.2.length = directoryEntrySize)
    (hlisted : IsListed slot) {s s' : DirectoryReadState}
    (h : s.processEntry (readShortName slot.2) slot.1 = .ok s') :
    ∃ entry, fileEntryOf slot s.nameEntries = .ok entry ∧
      s'.directory.fileEntries = s.directory.fileEntries ++ [entry] := by
  obtain ⟨_, hlabel, hdot⟩ := hlisted
  have hself : slot.2.take 11 ≠ selfName := fun hself => hdot (.inl hself)
  have hparent : slot.2.take 11 ≠ parentName := fun hparent => hdot (.inr hparent)
  rw [processEntry_shortName hlength, if_neg hself, if_neg hparent,
    if_neg (not_not_intro hlabel)] at h
  exact (addShortName_fileEntry h).2

/-- Any other entry leaves the file entries as they are. -/
theorem processEntry_not_listed {slot : Slot} {entry : DirectoryEntry}
    (hformat : format ≠ .exfat) (hlength : slot.2.length = directoryEntrySize)
    (hentry : readData slot.2 format = .ok (some entry))
    (hallocated : entry.entryType ≠ .unallocated) (hnot : ¬ IsListed slot)
    {s s' : DirectoryReadState} (h : s.processEntry entry slot.1 = .ok s') :
    s'.directory.fileEntries = s.directory.fileEntries := by
  rcases readData_eq_some hformat hentry with ⟨htype, rfl⟩ | ⟨_, rfl⟩ | ⟨_, rfl⟩
  · rw [processEntry_shortName hlength] at h
    split at h
    · exact (setSpecialEntry_listing (.inl h)).1
    split at h
    · exact (setSpecialEntry_listing (.inr (.inl h))).1
    split at h
    · exact (setSpecialEntry_listing (.inr (.inr h))).1
    · next hself hparent hlabel =>
      exact absurd ⟨htype, by simpa using hlabel, fun hdot => hdot.elim hself hparent⟩ hnot
  · by_cases hdot : HasDotName (longNameData slot)
    · exact (processEntry_of_dotName hdot h).1
    · rw [processEntry_of_not_dotName hdot] at h
      have hdirectory : s'.directory = s.directory := addVfatLongName_directory h
      rw [hdirectory]
  · exact absurd rfl hallocated

/-- A treatment of entries that adds a file entry for each slot of a kind, with
the long name of an array that the slots before it have made. -/
structure ListsShortNames
    (process : DirectoryReadState → DirectoryEntry → Int → Except Error DirectoryReadState)
    (format : FileSystemFormat) (Lists : Slot → Prop)
    (after : Slot → Option (List (List UInt8)) → Option (List (List UInt8))) : Prop where
  names : ∀ {slot entry s s'}, slot.2.length = directoryEntrySize →
    readData slot.2 format = .ok (some entry) → entry.entryType ≠ .unallocated →
    process s entry slot.1 = .ok s' → s'.nameEntries = after slot s.nameEntries
  listed : ∀ {slot entry s s'}, slot.2.length = directoryEntrySize →
    readData slot.2 format = .ok (some entry) → process s entry slot.1 = .ok s' → Lists slot →
    ∃ added, fileEntryOf slot s.nameEntries = .ok added ∧
      s'.directory.fileEntries = s.directory.fileEntries ++ [added]
  kept : ∀ {slot entry s s'}, slot.2.length = directoryEntrySize →
    readData slot.2 format = .ok (some entry) → entry.entryType ≠ .unallocated →
    process s entry slot.1 = .ok s' → ¬ Lists slot →
    s'.directory.fileEntries = s.directory.fileEntries
  deleted : ∀ {slot entry}, readData slot.2 format = .ok (some entry) →
    entry.entryType = .unallocated → ¬ Lists slot ∧ ∀ names, after slot names = names

/-- The run over slots: the array that they make, and the file entries that they
add, each with the array of the slots before it. -/
theorem ListsShortNames.run
    {process : DirectoryReadState → DirectoryEntry → Int → Except Error DirectoryReadState}
    {Lists : Slot → Prop} {after : Slot → Option (List (List UInt8)) → Option (List (List UInt8))}
    (h : ListsShortNames process format Lists after) {slots : List Slot}
    (hslots : ∀ slot ∈ slots, slot.2.length = directoryEntrySize ∧ IsEntry format slot)
    {s s' : DirectoryReadState} (hs : processEntries process (entriesOf format slots) s = .ok s') :
    s'.nameEntries = slots.foldl (fun names slot => after slot names) s.nameEntries ∧
      ∃ added, s'.directory.fileEntries = s.directory.fileEntries ++ added ∧
        ∀ entry ∈ added, ∃ before slot rest, slots = before ++ slot :: rest ∧ Lists slot ∧
          fileEntryOf slot (before.foldl (fun names slot => after slot names) s.nameEntries) =
            .ok entry := by
  induction slots generalizing s with
  | nil =>
    injection hs with hs
    subst hs
    exact ⟨rfl, [], (List.append_nil _).symm, fun entry hentry => absurd hentry List.not_mem_nil⟩
  | cons slot slots ih =>
    obtain ⟨⟨hlength, entry, hentry⟩, hrest⟩ := List.forall_mem_cons.mp hslots
    -- the file entries of the other slots find the array that this slot leaves
    have hbehind {names : Option (List (List UInt8))} {more : List DirectoryEntry}
        (hmore : ∀ entry ∈ more, ∃ before slot rest, slots = before ++ slot :: rest ∧ Lists slot ∧
          fileEntryOf slot (before.foldl (fun names slot => after slot names) names) = .ok entry)
        (hnames : names = after slot s.nameEntries) (entry : DirectoryEntry) (hmem : entry ∈ more) :
        ∃ before slot' rest, slot :: slots = before ++ slot' :: rest ∧ Lists slot' ∧
          fileEntryOf slot' (before.foldl (fun names slot => after slot names) s.nameEntries) =
            .ok entry := by
      obtain ⟨before, slot', rest, rfl, hlists, hfile⟩ := hmore entry hmem
      refine ⟨slot :: before, slot', rest, rfl, hlists, ?_⟩
      rwa [List.foldl_cons, ← hnames]
    rw [entriesOf, List.filterMap_cons, entryOf, hentry] at hs
    rw [List.foldl_cons]
    by_cases hun : entry.entryType = .unallocated
    · simp only [hun, if_true] at hs
      obtain ⟨_, hsame⟩ := h.deleted hentry hun
      obtain ⟨hnames, added, hadded, hall⟩ := ih hrest hs
      rw [hsame]
      exact ⟨hnames, added, hadded, hbehind hall (hsame _).symm⟩
    · simp only [hun, if_false, processEntries] at hs
      split at hs
      · cases hs
      next s₁ hstep =>
      obtain ⟨hnames, added, hadded, hall⟩ := ih hrest hs
      rw [nameEntries_appendEntry] at hnames hall
      rw [fileEntries_appendEntry] at hadded
      have hnames₁ := h.names hlength hentry hun hstep
      rw [← hnames₁]
      by_cases hlists : Lists slot
      · obtain ⟨file, hfile, hfiles⟩ := h.listed hlength hentry hstep hlists
        refine ⟨hnames, file :: added, by rw [hadded, hfiles, List.append_assoc]; rfl, ?_⟩
        rw [List.forall_mem_cons]
        exact ⟨⟨[], slot, slots, rfl, hlists, hfile⟩, hbehind hall hnames₁⟩
      · rw [h.kept hlength hentry hun hstep hlists] at hadded
        exact ⟨hnames, added, hadded, hbehind hall hnames₁⟩

/-- Reading a directory lists its short names so. -/
theorem listsShortNames_processEntry (hformat : format ≠ .exfat) :
    ListsShortNames processEntry format IsListed nameEntriesAfter where
  names hlength hentry hallocated h := processEntry_nameEntries hformat hlength hentry hallocated h
  listed := by
    intro slot entry s s' hlength hentry h hlisted
    rw [readData_shortName hformat ⟨hlength, hlisted.1⟩] at hentry
    injection hentry with hentry
    injection hentry with hentry
    subst hentry
    exact processEntry_listed hlength hlisted h
  kept hlength hentry hallocated h hnot :=
    processEntry_not_listed hformat hlength hentry hallocated hnot h
  deleted := by
    intro slot entry hentry hun
    have htype : entryTypeOf slot.2 .fat16 = .unallocated :=
      not_not.mp fun hne => (isAllocated_iff hformat hentry).mp hne hun
    have hnot : ¬ IsListed slot := fun hlisted => by
      rw [hlisted.1] at htype
      cases htype
    refine ⟨hnot, fun names => ?_⟩
    rw [nameEntriesAfter, if_neg hnot, if_pos (.inl (by rw [IsLongNameEntry, htype]; decide))]

/-- The file entry of a listed slot, with the array that its short name finds. -/
theorem processEntries_fileEntry (hformat : format ≠ .exfat) {before after : List Slot}
    {slot : Slot} (hlisted : IsListed slot)
    (hslots : ∀ t ∈ before ++ slot :: after,
      t.2.length = directoryEntrySize ∧ IsEntry format t) {s' : DirectoryReadState}
    (h : processEntries processEntry (entriesOf format (before ++ slot :: after)) .start = .ok s') :
    ∃ s entry, processEntries processEntry (entriesOf format before) .start = .ok s ∧
      s.nameEntries = nameEntriesBehind before ∧ fileEntryOf slot s.nameEntries = .ok entry ∧
      s'.directory.fileEntries[(before.filter IsListed).length]? = some entry := by
  obtain ⟨hbefore, hslot, hafter⟩ : (∀ t ∈ before, t.2.length = directoryEntrySize ∧
        IsEntry format t) ∧ (slot.2.length = directoryEntrySize ∧ IsEntry format slot) ∧
      ∀ t ∈ after, t.2.length = directoryEntrySize ∧ IsEntry format t :=
    ⟨fun t ht => hslots t (by simp [ht]), hslots slot (by simp), fun t ht => hslots t (by simp [ht])⟩
  have hread : readData slot.2 format = .ok (some (readShortName slot.2)) :=
    readData_shortName hformat ⟨hslot.1, hlisted.1⟩
  have hentries : entriesOf format (slot :: after) =
      (slot.1, readShortName slot.2) :: entriesOf format after := by
    rw [entriesOf, List.filterMap_cons, entryOf, hread]
    rfl
  rw [entriesOf_append, processEntries_append] at h
  split at h
  · cases h
  · next s hs =>
    rw [hentries, processEntries] at h
    split at h
    · cases h
    · next s₁ hstep =>
      obtain ⟨entry, hentry, hadded⟩ := processEntry_listed hslot.1 hlisted hstep
      obtain ⟨_, more, hmore, _⟩ := (listsShortNames_processEntry hformat).run hafter h
      obtain ⟨hnames, _⟩ := (listsShortNames_processEntry hformat).run hbefore hs
      rw [fileEntries_appendEntry, hadded] at hmore
      have hcount := congrArg List.length (processEntries_listing hformat hbefore hs).1
      have hstart : DirectoryReadState.start.directory.fileEntries = [] := rfl
      rw [hstart, List.map_nil, List.nil_append, List.length_map, listedOffsets,
        List.length_map] at hcount
      refine ⟨s, entry, hs, hnames, hentry, ?_⟩
      rw [hmore, ← hcount]
      simp

end Names

section Directories

variable {fs : FileSystem} {image : List UInt8} {c : Nat} {directory : Directory}

/-- In a directory that is read, each short name that is listed gets a complete
adjacent long name, or none, exactly when a long name that began behind the
short name before it is complete and adjacent, and no entry of a complete
adjacent long name starts as the name of the directory itself or of its parent. -/
theorem readDirectory_attachesRun_iff (hformat : fs.ioHandle.fileSystemFormat ≠ .exfat)
    (hgeometry : BlockGeometry fs.ioHandle) (hread : readDirectory fs image c = .ok directory) :
    ∃ last visited slots, lastClusterNumber fs.ioHandle.fileSystemFormat = .ok last ∧
      DirectoryContent fs image last c visited slots ∧
      ∀ before slot after, slots = before ++ slot :: after → IsListed slot →
        ∃ s entry,
          processEntries processEntry (entriesOf fs.ioHandle.fileSystemFormat before) .start =
            .ok s ∧
          fileEntryOf slot s.nameEntries = .ok entry ∧
          directory.fileEntries[(before.filter IsListed).length]? = some entry ∧
          (AttachesRun before s.nameEntries ↔
            (HasPendingName before → ∃ run, EndsWithRun before run) ∧
              ∀ run, EndsWithRun before run →
                ∀ slot ∈ run, ¬ HasDotName (longNameData slot)) := by
  obtain ⟨last, visited, slots, hlast, _, hcontent, _, s', hs', rfl⟩ :=
    (readDirectory_eq_ok_iff_content hgeometry).mp hread
  refine ⟨last, visited, slots, hlast, hcontent, ?_⟩
  rintro before slot after rfl hlisted
  obtain ⟨s, entry, hs, hnames, hentry, hfile⟩ := processEntries_fileEntry hformat hlisted
    (fun t ht => ⟨length_of_readAt (hcontent.mem ht).1, (hcontent.mem ht).2.1⟩) hs'
  refine ⟨s, entry, hs, hentry, hfile, ?_⟩
  rw [hnames]
  exact attachesRun_iff before

end Directories

/-- A long name of one entry, the slot of a deleted file, and a short name. -/
def longNameSlot : Slot := (512, [0x41, 0x42, 0, 0, 0] ++ List.replicate 6 0xff ++
  [0x0f, 0, 0] ++ List.replicate 12 0xff ++ [0, 0] ++ List.replicate 4 0xff)

def deletedSlot : Slot := (544, 0xe5 :: List.replicate 10 0x20 ++ 0x20 :: List.replicate 20 0)

def shortNameSlot : Slot := (576, 0x41 :: List.replicate 10 0x20 ++ 0x20 :: List.replicate 20 0)

/-- The volume with the directory of these slots. -/
def deletedGapImage : List UInt8 :=
  List.replicate 512 0 ++ longNameSlot.2 ++ deletedSlot.2 ++ shortNameSlot.2 ++
    List.replicate 416 0

theorem readDirectory_attachesRun_iff_deletedGap :
    ∃ directory, readDirectory vfatFileSystem deletedGapImage 2 = .ok directory ∧
      ∃ last visited slots, lastClusterNumber .fat16 = .ok last ∧
        DirectoryContent vfatFileSystem deletedGapImage last 2 visited slots ∧
        ∀ before slot after, slots = before ++ slot :: after → IsListed slot →
          ∃ s entry, processEntries processEntry (entriesOf .fat16 before) .start = .ok s ∧
            fileEntryOf slot s.nameEntries = .ok entry ∧
            directory.fileEntries[(before.filter IsListed).length]? = some entry ∧
            (AttachesRun before s.nameEntries ↔
              (HasPendingName before → ∃ run, EndsWithRun before run) ∧
                ∀ run, EndsWithRun before run →
                  ∀ slot ∈ run, ¬ HasDotName (longNameData slot)) := by
  obtain ⟨directory, hread⟩ : ∃ directory,
      readDirectory vfatFileSystem deletedGapImage 2 = .ok directory :=
    exists_eq_ok_of_isOk (by decide +kernel)
  exact ⟨directory, hread,
    readDirectory_attachesRun_iff (by decide) ⟨9, by decide, by decide, rfl⟩ hread⟩

/-- The deleted slot lies between the long name and the short name, which gets
the long name all the same. -/
theorem long_name_survives_deleted_slot :
    ∃ directory, readDirectory vfatFileSystem deletedGapImage 2 = .ok directory ∧
      DirectoryContent vfatFileSystem deletedGapImage 0xfff0 2 [2]
        ([longNameSlot, deletedSlot] ++ shortNameSlot :: []) ∧
      IsListed shortNameSlot ∧
      directory.fileEntries.map (fun entry => (entry.identifier, entry.isUnicode, entry.name)) =
        [(576, true, some [0x42, 0, 0, 0])] ∧
      ¬ ∃ run, EndsWithRun [longNameSlot, deletedSlot] run := by
  have hnames : (readDirectory vfatFileSystem deletedGapImage 2).map (fun directory =>
      directory.fileEntries.map fun entry => (entry.identifier, entry.isUnicode, entry.name)) =
        .ok [(576, true, some [0x42, 0, 0, 0])] := by
    decide +kernel
  obtain ⟨directory, hread, hdirectory⟩ := map_eq_ok_iff.mp hnames
  refine ⟨directory, hread, ?_, by decide, hdirectory, ?_⟩
  · have hlong : readAt deletedGapImage 512 32 = some longNameSlot.2 := by decide +kernel
    have hdeleted : readAt deletedGapImage 544 32 = some deletedSlot.2 := by decide +kernel
    have hshort : readAt deletedGapImage 576 32 = some shortNameSlot.2 := by decide +kernel
    have hend : readAt deletedGapImage 608 32 = some DirectoryEntry.empty := by decide +kernel
    have hrange : RangeContent deletedGapImage .fat16 16 512
        [longNameSlot, deletedSlot, shortNameSlot] true :=
      .slot hlong rfl (.slot hdeleted rfl (.slot hshort rfl (.terminated hend rfl)))
    have hcount : slotsPerCluster vfatFileSystem.ioHandle = 16 := by decide
    have hoffset : clusterOffset vfatFileSystem.ioHandle 2 = 512 := by decide
    refine .terminated (by decide) (by decide) ?_
    rw [hcount, hoffset]
    exact hrange
  · rintro ⟨run, hends⟩
    have hdeleted : IsLongNameEntry deletedSlot := hends.last_isLongNameEntry [longNameSlot]
    exact absurd hdeleted (by decide)

end FsFat
