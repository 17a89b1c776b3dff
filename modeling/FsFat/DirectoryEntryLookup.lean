import FsFat.FileSystem
import FsFat.Lib.Cycle

/-!
The lookup of a directory entry by its identifier:
`libfsfat_file_system_read_directory_entry_by_identifier`. A short name is
looked up with the long name before it, in slots that are read backward and, at
the start of a region, through the reversed allocation table. An exFAT file
entry is looked up with the data stream and the name entries behind it, read
forward through the allocation table.

The loops take clusters from the tables and do not keep the ones they had. They
end unless the slots that they come to let them pass forever.
-/

namespace FsFat

open DirectoryEntry

/-! ### The function -/

/-- The variables that the loops of the function change. Of the data stream
entry and of the directory entry for the next read only is said whether they are
set; the result is that of the last read, and false for zero. -/
structure EntryLookup where
  currentFileEntry : DirectoryEntry
  clusterNumber : Nat
  clusterOffset : Int
  clusterEndOffset : Int
  lastVfatSequenceNumber : Nat
  nameEntries : List (List UInt8)
  hasDataStreamEntry : Bool
  hasSafeDirectoryEntry : Bool
  result : Bool
  /-- The inner loop is running, over the slots of a region. -/
  inRegion : Bool

namespace EntryLookup

/-- What a step of the function gives: the next state of its variables, or the
result of the call, with no entry for zero. -/
abbrev Outcome := Loop.Step EntryLookup (Except Error (Option DirectoryEntry))

/-- The end of the region of a cluster. -/
def clusterEnd (ioHandle : IoHandle) (clusterNumber : Nat) : Int :=
  toOff64 (FsFat.clusterOffset ioHandle clusterNumber + ioHandle.clusterBlockSize)

/-- The quotient that is taken for the number of a cluster, less two. -/
def clusterQuotient (ioHandle : IoHandle) (identifier : Nat) : Nat :=
  identifier / ioHandle.clusterBlockSize % 2 ^ 32

/-- The cluster number that is computed from an identifier. -/
def identifierCluster (ioHandle : IoHandle) (identifier : Nat) : Nat :=
  (clusterQuotient ioHandle identifier + 2) % 2 ^ 32

/-- The end of the region that is computed from an identifier. -/
def identifierEnd (ioHandle : IoHandle) (identifier : Nat) : Int :=
  toOff64 (toOff64 ((clusterQuotient ioHandle identifier * ioHandle.clusterBlockSize : Nat)) +
    ioHandle.clusterBlockSize)

/-- The variables before the loops for an entry. -/
def ofEntry (ioHandle : IoHandle) (identifier : Nat) (entry : DirectoryEntry) : EntryLookup where
  currentFileEntry := { entry with identifier }
  clusterNumber := identifierCluster ioHandle identifier
  clusterOffset :=
    if entry.entryType = .shortName then toOff64 ((identifier : Int) - directoryEntrySize)
    else toOff64 ((identifier : Int) + directoryEntrySize)
  clusterEndOffset := identifierEnd ioHandle identifier
  lastVfatSequenceNumber := 0
  nameEntries := []
  hasDataStreamEntry := false
  hasSafeDirectoryEntry := false
  result := true
  inRegion := entry.entryType ≠ .shortName

/-- From the entry at the identifier to the loops. -/
def ofRead (ioHandle : IoHandle) (identifier : Nat) : Except Error (Option DirectoryEntry) → Outcome
  | .error e => .done (.error e)
  | .ok none => .done (.ok none)
  | .ok (some entry) =>
    if entry.entryType ≠ .shortName ∧ entry.entryType ≠ .exfatFileEntry then
      .done (.error .unsupportedDirectoryEntryType)
    else .next (ofEntry ioHandle identifier entry)

/-- The function up to its loops. -/
def start (fs : FileSystem) (image : List UInt8) (identifier : Nat) : Outcome :=
  ofRead fs.ioHandle identifier
    (readFileIOHandle image (toOff64 identifier) fs.ioHandle.fileSystemFormat)

/-- After the loops for a short name. -/
def finishShortName (w : EntryLookup) : Except Error (Option DirectoryEntry) :=
  if w.lastVfatSequenceNumber ≠ 0 then
    (w.currentFileEntry.getNameFromVfatLongFileNameEntries w.nameEntries).map some
  else .ok (some w.currentFileEntry)

/-- After the loops for an exFAT file entry. -/
def finishFileEntry (w : EntryLookup) : Except Error (Option DirectoryEntry) :=
  (w.currentFileEntry.getNameFromExfatFileNameEntries w.nameEntries).map some

/-- The region of the next cluster, from a table. -/
def toCluster (ioHandle : IoHandle) (w : EntryLookup) : Except Error Nat → Outcome
  | .error e => .done (.error e)
  | .ok clusterNumber =>
    .next { w with
      clusterNumber
      clusterOffset := FsFat.clusterOffset ioHandle clusterNumber
      clusterEndOffset := clusterEnd ioHandle clusterNumber
      inRegion := false }

/-- After the inner loop over VFAT long names. -/
def afterVfatRegion (fs : FileSystem) (w : EntryLookup) : Outcome :=
  if w.result then
    toCluster fs.ioHandle w <|
      match fs.reversedAllocationTable with
      | none => .error .missingAllocationTable
      | some reversed => reversed.getClusterNumberByIndex (toInt32 w.clusterNumber)
  else .done w.finishShortName

/-- An entry that the inner loop over VFAT long names has read. A flag in the
sequence number of the entry clears the result, but does not leave the loop. -/
def takeVfatEntry (fs : FileSystem) (w : EntryLookup) (entry : DirectoryEntry) : Outcome :=
  if entry.entryType = .vfatLongName then
    let vfatSequenceNumber := entry.vfatSequenceNumber &&& 0x1f
    if w.lastVfatSequenceNumber ≠ 0 ∧ w.lastVfatSequenceNumber + 1 ≠ vfatSequenceNumber then
      .done (.error .vfatSequenceNumberOutOfBounds)
    else
      .next { w with
        nameEntries := entry.nameData :: w.nameEntries
        lastVfatSequenceNumber := vfatSequenceNumber
        clusterOffset := w.clusterOffset - directoryEntrySize
        result := entry.vfatSequenceNumber &&& 0x40 = 0 }
  else afterVfatRegion fs { w with result := entry.entryType ≠ .shortName }

/-- One step of the loops for a short name. An offset at which an entry was read
is not negative, so that it can be decreased. -/
def vfatStep (fs : FileSystem) (image : List UInt8) (w : EntryLookup) : Outcome :=
  if w.inRegion then
    if w.clusterOffset ≤ w.clusterEndOffset then
      match readFileIOHandle image w.clusterOffset fs.ioHandle.fileSystemFormat with
      | .error e => .done (.error e)
      | .ok none => afterVfatRegion fs { w with result := false }
      | .ok (some entry) => takeVfatEntry fs w entry
    else afterVfatRegion fs w
  else if w.clusterNumber > 2 then .next { w with inRegion := true }
  else .done w.finishShortName

/-- After the inner loop over exFAT entries. -/
def afterExfatRegion (fs : FileSystem) (w : EntryLookup) : Outcome :=
  if w.result then
    toCluster fs.ioHandle w (fs.allocationTable.getClusterNumberByIndex (toInt32 w.clusterNumber))
  else .done w.finishFileEntry

/-- An entry that the inner loop over exFAT entries has read. The data stream
entry stays the one that the next read would set. -/
def takeExfatEntry (fs : FileSystem) (w : EntryLookup) (entry : DirectoryEntry) : Outcome :=
  match entry.entryType with
  | .exfatDataStream =>
    if w.hasDataStreamEntry then .done (.error .dataStreamEntryAlreadySet)
    else
      .next { w with
        currentFileEntry := { w.currentFileEntry with
          dataStartCluster := entry.dataStartCluster
          dataSize := entry.dataSize
          validDataSize := entry.validDataSize }
        clusterOffset := w.clusterOffset + directoryEntrySize
        hasDataStreamEntry := true
        hasSafeDirectoryEntry := true
        result := true }
  | .exfatFileEntryName =>
    .next { w with
      nameEntries := w.nameEntries ++ [entry.nameData]
      clusterOffset := w.clusterOffset + directoryEntrySize
      result := true }
  | entryType => afterExfatRegion fs { w with result := entryType ≠ .exfatFileEntry }

/-- One step of the loops for an exFAT file entry. A file has no byte at the
greatest offsets, so that an offset at which an entry was read can be increased. -/
def exfatStep (fs : FileSystem) (image : List UInt8) (w : EntryLookup) : Outcome :=
  if w.inRegion then
    if w.clusterOffset < w.clusterEndOffset then
      if w.hasSafeDirectoryEntry then .done (.error .directoryEntryAlreadySet)
      else
        match readFileIOHandle image w.clusterOffset fs.ioHandle.fileSystemFormat with
        | .error e => .done (.error e)
        | .ok none => afterExfatRegion fs { w with result := false }
        | .ok (some entry) => takeExfatEntry fs w entry
    else afterExfatRegion fs w
  else if w.clusterNumber ≥ 2 ∧ w.clusterNumber < 0xfffffff0 then .next { w with inRegion := true }
  else .done w.finishFileEntry

/-- One step of the loops. -/
def step (fs : FileSystem) (image : List UInt8) (w : EntryLookup) : Outcome :=
  if w.currentFileEntry.entryType = .shortName then vfatStep fs image w else exfatStep fs image w

end EntryLookup

/-- `libfsfat_file_system_read_directory_entry_by_identifier` returns, before its
loops or after them. -/
def LookupReturns (fs : FileSystem) (image : List UInt8) (identifier : Nat)
    (result : Except Error (Option DirectoryEntry)) : Prop :=
  EntryLookup.start fs image identifier = .done result ∨
  ∃ w, EntryLookup.start fs image identifier = .next w ∧
    Loop.Returns (EntryLookup.step fs image) w result

/-! ### Slots that let the walk pass -/

section Endless

variable (fs : FileSystem) (image : List UInt8)

/-- An entry is read at the offset. -/
def HasEntry (offset : Int) (entry : DirectoryEntry) : Prop :=
  readFileIOHandle image offset fs.ioHandle.fileSystemFormat = .ok (some entry)

/-- The slots at an offset and before it are long names, with sequence numbers
that count on from the last one, down to a slot that is allocated neither as a
long name nor as a short one. The last numbers before and after them. -/
inductive VfatPasses : Int → Nat → Nat → Prop where
  | other {offset : Int} {number : Nat} {entry : DirectoryEntry} :
      HasEntry fs image offset entry → entry.entryType ≠ .vfatLongName →
      entry.entryType ≠ .shortName → VfatPasses offset number number
  | longName {offset : Int} {number number' : Nat} {entry : DirectoryEntry} :
      HasEntry fs image offset entry → entry.entryType = .vfatLongName →
      (number = 0 ∨ number + 1 = entry.vfatSequenceNumber &&& 0x1f) →
      VfatPasses (offset - directoryEntrySize) (entry.vfatSequenceNumber &&& 0x1f) number' →
      VfatPasses offset number number'

/-- The region is behind its end, or its slots let the walk pass. -/
def VfatRegionPasses (offset endOffset : Int) (number number' : Nat) : Prop :=
  endOffset < offset ∧ number' = number ∨ offset ≤ endOffset ∧ VfatPasses fs image offset number number'

/-- The slots of a region are names, up to its end or to a slot of another kind
than a file entry, with no data stream but as the last of them. Whether a data
stream was read, before and after them. -/
inductive ExfatPasses (endOffset : Int) : Int → Bool → Bool → Prop where
  | regionEnd {offset : Int} {hasStream : Bool} : endOffset ≤ offset →
      ExfatPasses endOffset offset hasStream hasStream
  | other {offset : Int} {entry : DirectoryEntry} : offset < endOffset →
      HasEntry fs image offset entry → entry.entryType ≠ .exfatDataStream →
      entry.entryType ≠ .exfatFileEntryName → entry.entryType ≠ .exfatFileEntry →
      ExfatPasses endOffset offset false false
  | name {offset : Int} {hasStream : Bool} {entry : DirectoryEntry} : offset < endOffset →
      HasEntry fs image offset entry → entry.entryType = .exfatFileEntryName →
      ExfatPasses endOffset (offset + directoryEntrySize) false hasStream →
      ExfatPasses endOffset offset false hasStream
  | dataStream {offset : Int} {hasStream : Bool} {entry : DirectoryEntry} : offset < endOffset →
      HasEntry fs image offset entry → entry.entryType = .exfatDataStream →
      ExfatPasses endOffset (offset + directoryEntrySize) true hasStream →
      ExfatPasses endOffset offset false hasStream

/-- The walk back goes from one region to the one before it: a region is the
number of its cluster and the last sequence number after its slots. -/
def VfatLink (region region' : Nat × Nat) : Prop :=
  2 < region.1 ∧
  (∃ reversed, fs.reversedAllocationTable = some reversed ∧
    reversed.getClusterNumberByIndex (toInt32 region.1) = .ok region'.1) ∧
  VfatRegionPasses fs image (clusterOffset fs.ioHandle region'.1)
    (EntryLookup.clusterEnd fs.ioHandle region'.1) region.2 region'.2

/-- The walk forward goes from one region to the next: a region is the number of
its cluster, and whether there was a data stream up to its end. -/
def ExfatLink (region region' : Nat × Bool) : Prop :=
  fs.allocationTable.getClusterNumberByIndex (toInt32 region.1) = .ok region'.1 ∧
  (2 ≤ region'.1 ∧ region'.1 < 0xfffffff0) ∧
  ExfatPasses fs image (EntryLookup.clusterEnd fs.ioHandle region'.1)
    (clusterOffset fs.ioHandle region'.1) region.2 region'.2

/-- The identifier is the one of a short name, and the slots before it let the
walk pass back to a cycle of clusters whose slots let it pass too. -/
def VfatCycle (identifier : Nat) : Prop :=
  (∃ entry, HasEntry fs image (toOff64 identifier) entry ∧ entry.entryType = .shortName) ∧
  ∃ number, VfatRegionPasses fs image (toOff64 ((identifier : Int) - directoryEntrySize))
      (EntryLookup.identifierEnd fs.ioHandle identifier) 0 number ∧
    ReachesCycle (VfatLink fs image) (EntryLookup.identifierCluster fs.ioHandle identifier, number)

/-- The identifier is the one of a file entry, and the slots behind it let the
walk pass on to a cycle of clusters whose slots let it pass too. -/
def ExfatCycle (identifier : Nat) : Prop :=
  (∃ entry, HasEntry fs image (toOff64 identifier) entry ∧ entry.entryType = .exfatFileEntry) ∧
  ∃ hasStream, ExfatPasses fs image (EntryLookup.identifierEnd fs.ioHandle identifier)
      (toOff64 ((identifier : Int) + directoryEntrySize)) false hasStream ∧
    ReachesCycle (ExfatLink fs image)
      (EntryLookup.identifierCluster fs.ioHandle identifier, hasStream)

end Endless

/-! ### The walk back -/

namespace EntryLookup

section Vfat

variable {fs : FileSystem} {image : List UInt8}

/-- Before the inner loop over the long names of a region. -/
structure AtVfatRegion (w : EntryLookup) : Prop where
  entryType : w.currentFileEntry.entryType = .shortName
  inRegion : w.inRegion = false
  result : w.result = true

/-- The reversed table links the cluster to another one. -/
def LinksBack (fs : FileSystem) (clusterNumber clusterNumber' : Nat) : Prop :=
  ∃ reversed, fs.reversedAllocationTable = some reversed ∧
    reversed.getClusterNumberByIndex (toInt32 clusterNumber) = .ok clusterNumber'

theorem step_of_shortName {w : EntryLookup} (h : w.currentFileEntry.entryType = .shortName) :
    step fs image w = vfatStep fs image w :=
  if_pos h

/-- The region of the next cluster, when the result is not zero. -/
theorem afterVfatRegion_of_links {w : EntryLookup}
    (htype : w.currentFileEntry.entryType = .shortName) (hresult : w.result = true) {c : Nat}
    (hlinks : LinksBack fs w.clusterNumber c) :
    ∃ w', afterVfatRegion fs w = .next w' ∧ AtVfatRegion w' ∧ w'.clusterNumber = c ∧
      w'.clusterOffset = FsFat.clusterOffset fs.ioHandle c ∧
      w'.clusterEndOffset = clusterEnd fs.ioHandle c ∧
      w'.lastVfatSequenceNumber = w.lastVfatSequenceNumber := by
  obtain ⟨reversed, hreversed, hget⟩ := hlinks
  simp only [afterVfatRegion, hresult, if_true, hreversed, hget, toCluster]
  exact ⟨_, rfl, ⟨htype, rfl, rfl⟩, rfl, rfl, rfl, rfl⟩

/-- Otherwise the function returns. -/
theorem afterVfatRegion_next {w w' : EntryLookup} (h : afterVfatRegion fs w = .next w') :
    w.result = true ∧ LinksBack fs w.clusterNumber w'.clusterNumber ∧
      w' = { w with
        clusterNumber := w'.clusterNumber
        clusterOffset := FsFat.clusterOffset fs.ioHandle w'.clusterNumber
        clusterEndOffset := clusterEnd fs.ioHandle w'.clusterNumber
        inRegion := false } := by
  unfold afterVfatRegion at h
  split at h
  · next hresult =>
    unfold toCluster at h
    split at h
    · cases h
    · next c hc =>
      injection h with h
      subst h
      refine ⟨hresult, ?_, rfl⟩
      split at hc
      · cases hc
      · next reversed hreversed => exact ⟨reversed, hreversed, hc⟩
  · cases h

/-- Slots that let the walk pass are passed, whatever the result was before. -/
theorem progress_of_vfatPasses {offset : Int} {number number' : Nat}
    (h : VfatPasses fs image offset number number') {w : EntryLookup}
    (htype : w.currentFileEntry.entryType = .shortName) (hin : w.inRegion = true)
    (hoffset : w.clusterOffset = offset) (hend : offset ≤ w.clusterEndOffset)
    (hnumber : w.lastVfatSequenceNumber = number) {c : Nat}
    (hlinks : LinksBack fs w.clusterNumber c) :
    ∃ w', Relation.TransGen (Loop.Continues (step fs image)) w w' ∧ AtVfatRegion w' ∧
      w'.clusterNumber = c ∧ w'.clusterOffset = FsFat.clusterOffset fs.ioHandle c ∧
      w'.clusterEndOffset = clusterEnd fs.ioHandle c ∧ w'.lastVfatSequenceNumber = number' := by
  induction h generalizing w with
  | @other offset number entry hread hlong hshort =>
    unfold HasEntry at hread
    have hstep : step fs image w = afterVfatRegion fs { w with result := true } := by
      rw [step_of_shortName htype]
      simp only [vfatStep, hin, if_true, hoffset, hend, hread, takeVfatEntry, hlong, hshort,
        if_false, ne_eq, not_false_eq_true, decide_true]
    obtain ⟨w', hw', hat, hc, ho, he, hn⟩ :=
      afterVfatRegion_of_links (w := { w with result := true }) htype rfl hlinks
    exact ⟨w', .single (hstep.trans hw'), hat, hc, ho, he, hn.trans hnumber⟩
  | @longName offset number number' entry hread hlong hcounts _ ih =>
    unfold HasEntry at hread
    have hnot : ¬ (w.lastVfatSequenceNumber ≠ 0 ∧
        w.lastVfatSequenceNumber + 1 ≠ entry.vfatSequenceNumber &&& 0x1f) := by
      rw [hnumber]
      rintro ⟨h0, h1⟩
      exact hcounts.elim h0 h1
    obtain ⟨w₁, hstep, htype₁, hin₁, hoffset₁, hend₁, hnumber₁, hcluster₁⟩ : ∃ w₁,
        step fs image w = .next w₁ ∧ w₁.currentFileEntry.entryType = .shortName ∧
        w₁.inRegion = true ∧ w₁.clusterOffset = offset - directoryEntrySize ∧
        w₁.clusterEndOffset = w.clusterEndOffset ∧
        w₁.lastVfatSequenceNumber = entry.vfatSequenceNumber &&& 0x1f ∧
        w₁.clusterNumber = w.clusterNumber := by
      rw [step_of_shortName htype]
      simp only [vfatStep, hin, if_true, hoffset, hend, hread, takeVfatEntry, hlong, hnot, if_false]
      exact ⟨_, rfl, htype, rfl, rfl, rfl, rfl, rfl⟩
    have hend' : offset - directoryEntrySize ≤ w₁.clusterEndOffset := by
      rw [hend₁]
      simp only [directoryEntrySize]
      omega
    obtain ⟨w', hreach, hw'⟩ := ih htype₁ hin₁ hoffset₁ hend' hnumber₁ (hcluster₁ ▸ hlinks)
    exact ⟨w', .head hstep hreach, hw'⟩

theorem progress_of_vfatRegionPasses {w : EntryLookup} (hw : AtVfatRegion w)
    (h2 : 2 < w.clusterNumber) {number' : Nat}
    (h : VfatRegionPasses fs image w.clusterOffset w.clusterEndOffset w.lastVfatSequenceNumber
      number') {c : Nat} (hlinks : LinksBack fs w.clusterNumber c) :
    ∃ w', Relation.TransGen (Loop.Continues (step fs image)) w w' ∧ AtVfatRegion w' ∧
      w'.clusterNumber = c ∧ w'.clusterOffset = FsFat.clusterOffset fs.ioHandle c ∧
      w'.clusterEndOffset = clusterEnd fs.ioHandle c ∧ w'.lastVfatSequenceNumber = number' := by
  have henter : Loop.Continues (step fs image) w { w with inRegion := true } := by
    unfold Loop.Continues
    rw [step_of_shortName hw.entryType]
    simp only [vfatStep, hw.inRegion, Bool.false_eq_true, if_false, gt_iff_lt, h2, if_true]
  rcases h with ⟨hbehind, rfl⟩ | ⟨hend, hpasses⟩
  · obtain ⟨w', hw', hat⟩ :=
      afterVfatRegion_of_links (w := { w with inRegion := true }) hw.entryType hw.result hlinks
    have htype : ({ w with inRegion := true } : EntryLookup).currentFileEntry.entryType =
        .shortName := hw.entryType
    have hstep : step fs image { w with inRegion := true } = .next w' := by
      rw [step_of_shortName htype]
      simp only [vfatStep, if_true, not_le.mpr hbehind, if_false, hw']
    exact ⟨w', .tail (.single henter) hstep, hat⟩
  · obtain ⟨w', hreach, hw'⟩ :=
      progress_of_vfatPasses hpasses (w := { w with inRegion := true }) hw.entryType rfl rfl hend
        rfl hlinks
    exact ⟨w', .head henter hreach, hw'⟩

/-- The next region that a walk comes to which does not end. -/
structure NextVfatRegion (fs : FileSystem) (image : List UInt8) (w w' : EntryLookup) : Prop where
  at_region : AtVfatRegion w'
  endless : ¬ Loop.Terminates (step fs image) w'
  links : LinksBack fs w.clusterNumber w'.clusterNumber
  offset : w'.clusterOffset = FsFat.clusterOffset fs.ioHandle w'.clusterNumber
  endOffset : w'.clusterEndOffset = clusterEnd fs.ioHandle w'.clusterNumber

/-- A walk that does not end leaves a region for the next one. -/
theorem nextVfatRegion_of_after {w w₁ : EntryLookup}
    (hstep : step fs image w = afterVfatRegion fs w₁) (h : ¬ Loop.Terminates (step fs image) w)
    (htype : w₁.currentFileEntry.entryType = .shortName)
    (hcluster : w₁.clusterNumber = w.clusterNumber) :
    w₁.result = true ∧ ∃ w', NextVfatRegion fs image w w' ∧
      w'.lastVfatSequenceNumber = w₁.lastVfatSequenceNumber := by
  cases hafter : afterVfatRegion fs w₁ with
  | done result => exact absurd (Loop.terminates_of_done (hstep.trans hafter)) h
  | next w' =>
    obtain ⟨hresult, hlinks, heq⟩ := afterVfatRegion_next hafter
    rw [hcluster] at hlinks
    rw [Loop.terminates_next_iff (hstep.trans hafter)] at h
    refine ⟨hresult, w', ⟨⟨?_, ?_, ?_⟩, h, hlinks, ?_, ?_⟩, ?_⟩
    · rw [heq]
      exact htype
    · rw [heq]
    · rw [heq]
      exact hresult
    · rw [heq]
    · rw [heq]
    · rw [heq]

/-- A walk that does not end passes the slots of its region. -/
theorem vfatPasses_of_endless {w : EntryLookup} (h : ¬ Loop.Terminates (step fs image) w)
    (htype : w.currentFileEntry.entryType = .shortName) (hin : w.inRegion = true)
    (hend : w.clusterOffset ≤ w.clusterEndOffset) :
    ∃ w', NextVfatRegion fs image w w' ∧ VfatPasses fs image w.clusterOffset
      w.lastVfatSequenceNumber w'.lastVfatSequenceNumber := by
  -- each iteration reads at an offset that is not negative, and decreases it
  induction hsize : (w.clusterOffset + directoryEntrySize).toNat using Nat.strongRecOn
    generalizing w with
  | ind size ih =>
    have hvfat : step fs image w =
        match readFileIOHandle image w.clusterOffset fs.ioHandle.fileSystemFormat with
        | .error e => .done (.error e)
        | .ok none => afterVfatRegion fs { w with result := false }
        | .ok (some entry) => takeVfatEntry fs w entry := by
      rw [step_of_shortName htype]
      simp only [vfatStep, hin, if_true, hend]
    cases hread : readFileIOHandle image w.clusterOffset fs.ioHandle.fileSystemFormat with
    | error e =>
      rw [hread] at hvfat
      exact absurd (Loop.terminates_of_done hvfat) h
    | ok read =>
      rw [hread] at hvfat
      cases read with
      | none =>
        dsimp only at hvfat
        obtain ⟨hresult, _⟩ := nextVfatRegion_of_after hvfat h htype rfl
        cases hresult
      | some entry =>
        dsimp only at hvfat
        by_cases hlong : entry.entryType = .vfatLongName
        · by_cases hnumber : w.lastVfatSequenceNumber ≠ 0 ∧
              w.lastVfatSequenceNumber + 1 ≠ entry.vfatSequenceNumber &&& 0x1f
          · simp only [takeVfatEntry, hlong, if_true, hnumber, ne_eq, not_false_eq_true,
              and_self] at hvfat
            exact absurd (Loop.terminates_of_done hvfat) h
          · simp only [takeVfatEntry, hlong, if_true, hnumber, if_false] at hvfat
            rw [Loop.terminates_next_iff hvfat] at h
            have h0 : 0 ≤ w.clusterOffset := by
              by_contra hneg
              simp only [readFileIOHandle, Bytes.readAt_neg (not_le.mp hneg)] at hread
              cases hread
            have hless :
                (w.clusterOffset - directoryEntrySize + directoryEntrySize).toNat < size := by
              rw [← hsize]
              simp only [directoryEntrySize]
              omega
            have hend' : w.clusterOffset - directoryEntrySize ≤ w.clusterEndOffset := by
              simp only [directoryEntrySize]
              omega
            obtain ⟨w', hnext, hpasses⟩ := ih _ hless h htype hin hend' rfl
            refine ⟨w', ⟨hnext.at_region, hnext.endless, hnext.links, hnext.offset,
              hnext.endOffset⟩, .longName hread hlong ?_ hpasses⟩
            by_contra hnot
            exact hnumber (not_or.mp hnot)
        · simp only [takeVfatEntry, hlong, if_false] at hvfat
          obtain ⟨hresult, w', hnext, heq⟩ := nextVfatRegion_of_after hvfat h htype rfl
          refine ⟨w', hnext, ?_⟩
          rw [heq]
          exact .other hread hlong (of_decide_eq_true hresult)

theorem vfatRegionPasses_of_endless {w : EntryLookup} (hw : AtVfatRegion w)
    (h : ¬ Loop.Terminates (step fs image) w) :
    2 < w.clusterNumber ∧ ∃ w', NextVfatRegion fs image w w' ∧
      VfatRegionPasses fs image w.clusterOffset w.clusterEndOffset w.lastVfatSequenceNumber
        w'.lastVfatSequenceNumber := by
  have hstep : step fs image w = vfatStep fs image w := step_of_shortName hw.entryType
  by_cases h2 : 2 < w.clusterNumber
  · refine ⟨h2, ?_⟩
    simp only [vfatStep, hw.inRegion, Bool.false_eq_true, if_false, gt_iff_lt, h2, if_true] at hstep
    rw [Loop.terminates_next_iff hstep] at h
    by_cases hend : w.clusterOffset ≤ w.clusterEndOffset
    · obtain ⟨w', hnext, hpasses⟩ := vfatPasses_of_endless h hw.entryType rfl hend
      exact ⟨w', ⟨hnext.at_region, hnext.endless, hnext.links, hnext.offset, hnext.endOffset⟩,
        Or.inr ⟨hend, hpasses⟩⟩
    · have htype : ({ w with inRegion := true } : EntryLookup).currentFileEntry.entryType =
          .shortName := hw.entryType
      have hafter : step fs image { w with inRegion := true } =
          afterVfatRegion fs { w with inRegion := true } := by
        rw [step_of_shortName htype]
        simp only [vfatStep, if_true, hend, if_false]
      obtain ⟨_, w', hnext, heq⟩ := nextVfatRegion_of_after hafter h hw.entryType rfl
      exact ⟨w', ⟨hnext.at_region, hnext.endless, hnext.links, hnext.offset, hnext.endOffset⟩,
        Or.inl ⟨not_le.mp hend, heq⟩⟩
  · simp only [vfatStep, hw.inRegion, Bool.false_eq_true, if_false, gt_iff_lt, h2] at hstep
    exact absurd (Loop.terminates_of_done hstep) h

end Vfat

/-! ### The walk forward -/

section Exfat

variable {fs : FileSystem} {image : List UInt8}

/-- In the inner loop over the exFAT entries of a region. The data stream entry
and the entry for the next read are the same, or neither of them is set. -/
structure InExfatRegion (w : EntryLookup) : Prop where
  entryType : w.currentFileEntry.entryType = .exfatFileEntry
  inRegion : w.inRegion = true
  streams : w.hasDataStreamEntry = w.hasSafeDirectoryEntry

theorem step_of_fileEntry {w : EntryLookup} (h : w.currentFileEntry.entryType = .exfatFileEntry) :
    step fs image w = exfatStep fs image w := by
  unfold step
  rw [h]
  rfl

/-- The next region of a walk forward. -/
structure NextExfatRegion (fs : FileSystem) (w w' : EntryLookup) : Prop where
  at_region : InExfatRegion w'
  result : w'.result = true
  links : fs.allocationTable.getClusterNumberByIndex (toInt32 w.clusterNumber) =
    .ok w'.clusterNumber
  isCluster : 2 ≤ w'.clusterNumber ∧ w'.clusterNumber < 0xfffffff0
  offset : w'.clusterOffset = FsFat.clusterOffset fs.ioHandle w'.clusterNumber
  endOffset : w'.clusterEndOffset = clusterEnd fs.ioHandle w'.clusterNumber

/-- The region of the next cluster, when the result is not zero. -/
theorem progress_of_after {w w₁ : EntryLookup} (hstep : step fs image w = afterExfatRegion fs w₁)
    (hw : InExfatRegion w₁) (hresult : w₁.result = true) {c : Nat}
    (hlinks : fs.allocationTable.getClusterNumberByIndex (toInt32 w₁.clusterNumber) = .ok c)
    (hc : 2 ≤ c ∧ c < 0xfffffff0) :
    ∃ w', Relation.TransGen (Loop.Continues (step fs image)) w w' ∧ NextExfatRegion fs w₁ w' ∧
      w'.clusterNumber = c ∧ w'.hasSafeDirectoryEntry = w₁.hasSafeDirectoryEntry := by
  simp only [afterExfatRegion, hresult, if_true, hlinks, toCluster] at hstep
  refine ⟨{ w₁ with
      clusterNumber := c
      clusterOffset := FsFat.clusterOffset fs.ioHandle c
      clusterEndOffset := clusterEnd fs.ioHandle c
      result := true
      inRegion := true }, .tail (.single hstep) ?_,
    ⟨⟨hw.entryType, rfl, hw.streams⟩, rfl, hlinks, hc, rfl, rfl⟩, rfl, rfl⟩
  unfold Loop.Continues
  rw [step_of_fileEntry (by exact hw.entryType)]
  simp only [exfatStep, Bool.false_eq_true, if_false, ge_iff_le, hc, and_self, if_true]

/-- Slots that let the walk pass are passed. -/
theorem progress_of_exfatPasses {endOffset offset : Int} {hasStream hasStream' : Bool}
    (h : ExfatPasses fs image endOffset offset hasStream hasStream') {w : EntryLookup}
    (hw : InExfatRegion w) (hresult : w.result = true) (hoffset : w.clusterOffset = offset)
    (hend : w.clusterEndOffset = endOffset) (hstream : w.hasSafeDirectoryEntry = hasStream)
    {c : Nat} (hlinks : fs.allocationTable.getClusterNumberByIndex (toInt32 w.clusterNumber) = .ok c)
    (hc : 2 ≤ c ∧ c < 0xfffffff0) :
    ∃ w', Relation.TransGen (Loop.Continues (step fs image)) w w' ∧ NextExfatRegion fs w w' ∧
      w'.clusterNumber = c ∧ w'.hasSafeDirectoryEntry = hasStream' := by
  induction h generalizing w with
  | @regionEnd offset hasStream hbehind =>
    have hstep : step fs image w = afterExfatRegion fs w := by
      rw [step_of_fileEntry hw.entryType]
      simp only [exfatStep, hw.inRegion, if_true, hoffset, hend, not_lt.mpr hbehind, if_false]
    obtain ⟨w', hreach, hnext, hnumber, heq⟩ := progress_of_after hstep hw hresult hlinks hc
    exact ⟨w', hreach, hnext, hnumber, heq.trans hstream⟩
  | @other offset entry hlt hread hdata hname hfile =>
    unfold HasEntry at hread
    rw [← hoffset] at hread hlt
    rw [← hend] at hlt
    have hsafe : ¬ w.hasSafeDirectoryEntry = true := hstream ▸ Bool.false_ne_true
    have hstep : step fs image w = afterExfatRegion fs { w with result := true } := by
      rw [step_of_fileEntry hw.entryType, exfatStep, if_pos hw.inRegion, if_pos hlt, if_neg hsafe,
        hread]
      dsimp only
      unfold takeExfatEntry
      split
      · next h => exact absurd h hdata
      · next h => exact absurd h hname
      · simp only [hfile, ne_eq, not_false_eq_true, decide_true]
    have hw₁ : InExfatRegion { w with result := true } := ⟨hw.entryType, hw.inRegion, hw.streams⟩
    obtain ⟨w', hreach, hnext, hnumber, heq⟩ := progress_of_after hstep hw₁ rfl hlinks hc
    exact ⟨w', hreach, ⟨hnext.at_region, hnext.result, hnext.links, hnext.isCluster, hnext.offset,
      hnext.endOffset⟩, hnumber, heq.trans hstream⟩
  | @name offset hasStream entry hlt hread hname _ ih =>
    unfold HasEntry at hread
    obtain ⟨w₁, hstep, hw₁, hresult₁, hoffset₁, hend₁, hstream₁, hcluster₁⟩ : ∃ w₁,
        step fs image w = .next w₁ ∧ InExfatRegion w₁ ∧ w₁.result = true ∧
        w₁.clusterOffset = offset + directoryEntrySize ∧
        w₁.clusterEndOffset = w.clusterEndOffset ∧ w₁.hasSafeDirectoryEntry = false ∧
        w₁.clusterNumber = w.clusterNumber := by
      rw [step_of_fileEntry hw.entryType]
      have hstreams := hw.streams.trans hstream
      simp only [exfatStep, hw.inRegion, if_true, hoffset, hend, hlt, hstream, Bool.false_eq_true,
        if_false, hread, takeExfatEntry, hname]
      exact ⟨_, rfl, ⟨hw.entryType, rfl, hstreams⟩, rfl, rfl, rfl, rfl, rfl⟩
    rw [← hcluster₁] at hlinks
    obtain ⟨w', hreach, hnext, hw'⟩ := ih hw₁ hresult₁ hoffset₁ (hend₁.trans hend) hstream₁ hlinks
    exact ⟨w', .head hstep hreach, ⟨hnext.at_region, hnext.result, hcluster₁ ▸ hnext.links,
      hnext.isCluster, hnext.offset, hnext.endOffset⟩, hw'⟩
  | @dataStream offset hasStream entry hlt hread hdata _ ih =>
    unfold HasEntry at hread
    obtain ⟨w₁, hstep, hw₁, hresult₁, hoffset₁, hend₁, hstream₁, hcluster₁⟩ : ∃ w₁,
        step fs image w = .next w₁ ∧ InExfatRegion w₁ ∧ w₁.result = true ∧
        w₁.clusterOffset = offset + directoryEntrySize ∧
        w₁.clusterEndOffset = w.clusterEndOffset ∧ w₁.hasSafeDirectoryEntry = true ∧
        w₁.clusterNumber = w.clusterNumber := by
      rw [step_of_fileEntry hw.entryType]
      have hstreams := hw.streams.trans hstream
      simp only [exfatStep, hw.inRegion, if_true, hoffset, hend, hlt, hstream, Bool.false_eq_true,
        if_false, hread, takeExfatEntry, hdata, hstreams]
      exact ⟨_, rfl, ⟨hw.entryType, rfl, rfl⟩, rfl, rfl, rfl, rfl, rfl⟩
    rw [← hcluster₁] at hlinks
    obtain ⟨w', hreach, hnext, hw'⟩ := ih hw₁ hresult₁ hoffset₁ (hend₁.trans hend) hstream₁ hlinks
    exact ⟨w', .head hstep hreach, ⟨hnext.at_region, hnext.result, hcluster₁ ▸ hnext.links,
      hnext.isCluster, hnext.offset, hnext.endOffset⟩, hw'⟩

/-- A walk that does not end leaves a region for the next one. -/
theorem nextExfatRegion_of_after {w w₁ : EntryLookup}
    (hstep : step fs image w = afterExfatRegion fs w₁) (h : ¬ Loop.Terminates (step fs image) w)
    (hw : InExfatRegion w₁) :
    w₁.result = true ∧ ∃ w', NextExfatRegion fs w₁ w' ∧ ¬ Loop.Terminates (step fs image) w' ∧
      w'.hasSafeDirectoryEntry = w₁.hasSafeDirectoryEntry := by
  unfold afterExfatRegion at hstep
  split at hstep
  swap
  · exact absurd (Loop.terminates_of_done hstep) h
  next hresult =>
  refine ⟨hresult, ?_⟩
  cases hlinks : fs.allocationTable.getClusterNumberByIndex (toInt32 w₁.clusterNumber) with
  | error e =>
    rw [hlinks] at hstep
    exact absurd (Loop.terminates_of_done hstep) h
  | ok c =>
    rw [hlinks, toCluster] at hstep
    rw [Loop.terminates_next_iff hstep] at h
    set w₂ : EntryLookup := { w₁ with
      clusterNumber := c
      clusterOffset := FsFat.clusterOffset fs.ioHandle c
      clusterEndOffset := clusterEnd fs.ioHandle c
      inRegion := false } with hw₂
    have hcheck : step fs image w₂ = exfatStep fs image w₂ := step_of_fileEntry hw.entryType
    by_cases hc : 2 ≤ c ∧ c < 0xfffffff0
    · simp only [exfatStep, hw₂, Bool.false_eq_true, if_false, ge_iff_le, hc, and_self,
        if_true] at hcheck
      rw [Loop.terminates_next_iff hcheck] at h
      exact ⟨{ w₂ with inRegion := true },
        ⟨⟨hw.entryType, rfl, hw.streams⟩, hresult, hlinks, hc, rfl, rfl⟩, h, rfl⟩
    · simp only [exfatStep, hw₂, Bool.false_eq_true, if_false, ge_iff_le, hc] at hcheck
      exact absurd (Loop.terminates_of_done hcheck) h

/-- A walk that does not end passes the slots of its region. -/
theorem exfatPasses_of_endless {w : EntryLookup} (h : ¬ Loop.Terminates (step fs image) w)
    (hw : InExfatRegion w) :
    ∃ w', NextExfatRegion fs w w' ∧ ¬ Loop.Terminates (step fs image) w' ∧
      ExfatPasses fs image w.clusterEndOffset w.clusterOffset w.hasSafeDirectoryEntry
        w'.hasSafeDirectoryEntry := by
  -- each iteration comes nearer to the end of the region
  induction hsize : (w.clusterEndOffset - w.clusterOffset).toNat using Nat.strongRecOn
    generalizing w with
  | ind size ih =>
    have hexfat : step fs image w = exfatStep fs image w := step_of_fileEntry hw.entryType
    by_cases hlt : w.clusterOffset < w.clusterEndOffset
    swap
    · simp only [exfatStep, hw.inRegion, if_true, hlt, if_false] at hexfat
      obtain ⟨_, w', hnext, hendless, heq⟩ := nextExfatRegion_of_after hexfat h hw
      refine ⟨w', hnext, hendless, ?_⟩
      rw [heq]
      exact .regionEnd (not_lt.mp hlt)
    cases hsafe : w.hasSafeDirectoryEntry with
    | true =>
      simp only [exfatStep, hw.inRegion, if_true, hlt, hsafe] at hexfat
      exact absurd (Loop.terminates_of_done hexfat) h
    | false =>
      have hstream := hw.streams.trans hsafe
      simp only [exfatStep, hw.inRegion, if_true, hlt, hsafe, Bool.false_eq_true,
        if_false] at hexfat
      have hless : (w.clusterEndOffset - (w.clusterOffset + directoryEntrySize)).toNat < size := by
        rw [← hsize]
        simp only [directoryEntrySize]
        omega
      cases hread : readFileIOHandle image w.clusterOffset fs.ioHandle.fileSystemFormat with
      | error e =>
        rw [hread] at hexfat
        exact absurd (Loop.terminates_of_done hexfat) h
      | ok read =>
        rw [hread] at hexfat
        cases read with
        | none =>
          dsimp only at hexfat
          obtain ⟨hresult, _⟩ := nextExfatRegion_of_after hexfat h ⟨hw.entryType, rfl, hstream⟩
          cases hresult
        | some entry =>
          simp only [takeExfatEntry] at hexfat
          split at hexfat
          · next hdata =>
            simp only [hstream, Bool.false_eq_true, if_false] at hexfat
            rw [Loop.terminates_next_iff hexfat] at h
            obtain ⟨w', hnext, hendless, hpasses⟩ :=
              ih _ hless h ⟨hw.entryType, hw.inRegion, rfl⟩ rfl
            exact ⟨w', ⟨hnext.at_region, hnext.result, hnext.links, hnext.isCluster, hnext.offset,
              hnext.endOffset⟩, hendless, .dataStream hlt hread hdata hpasses⟩
          · next hname =>
            rw [Loop.terminates_next_iff hexfat] at h
            obtain ⟨w', hnext, hendless, hpasses⟩ :=
              ih _ hless h ⟨hw.entryType, hw.inRegion, hw.streams⟩ rfl
            dsimp only at hpasses
            rw [hsafe] at hpasses
            exact ⟨w', ⟨hnext.at_region, hnext.result, hnext.links, hnext.isCluster, hnext.offset,
              hnext.endOffset⟩, hendless, .name hlt hread hname hpasses⟩
          · next hdata hname =>
            obtain ⟨hresult, w', hnext, hendless, heq⟩ := nextExfatRegion_of_after hexfat h
              ⟨hw.entryType, hw.inRegion, hw.streams⟩
            refine ⟨w', ⟨hnext.at_region, hnext.result, hnext.links, hnext.isCluster, hnext.offset,
              hnext.endOffset⟩, hendless, ?_⟩
            rw [heq]
            dsimp only
            rw [hsafe]
            exact .other hlt hread hdata hname (of_decide_eq_true hresult)

end Exfat

/-! ### Regions from an identifier -/

section Identifier

variable {fs : FileSystem} {image : List UInt8}

theorem getClusterNumberByIndex_mem {table : AllocationTable} {i : Int} {c : Nat}
    (h : table.getClusterNumberByIndex i = .ok c) : c ∈ table.clusterNumbers := by
  unfold AllocationTable.getClusterNumberByIndex at h
  split at h
  · cases h
  next hbounds =>
  injection h with h
  have hlt : i.toNat < table.clusterNumbers.length := by
    unfold AllocationTable.numberOfClusterNumbers at hbounds
    omega
  rw [← h, List.getD_eq_getElem _ _ hlt]
  exact List.getElem_mem hlt

theorem getClusterNumberByIndex_lt {table : AllocationTable} {i : Int} {c : Nat}
    (h : table.getClusterNumberByIndex i = .ok c) : c < 2 ^ 32 :=
  table.value_lt c (getClusterNumberByIndex_mem h)

theorem vfatPasses_lt {offset : Int} {number number' : Nat}
    (h : VfatPasses fs image offset number number') (hnumber : number < 32) : number' < 32 := by
  induction h with
  | other => exact hnumber
  | @longName _ _ _ entry _ _ _ _ ih =>
    apply ih
    have hle : entry.vfatSequenceNumber &&& 0x1f ≤ 0x1f := Nat.and_le_right
    exact Nat.lt_succ_of_le hle

theorem vfatRegionPasses_lt {offset endOffset : Int} {number number' : Nat}
    (h : VfatRegionPasses fs image offset endOffset number number') (hnumber : number < 32) :
    number' < 32 := by
  rcases h with ⟨_, rfl⟩ | ⟨_, hpasses⟩
  · exact hnumber
  · exact vfatPasses_lt hpasses hnumber

/-- From a cycle that it can reach, the walk back comes to region after region. -/
theorem not_terminates_of_vfatCycle {w : EntryLookup} (hw : AtVfatRegion w) {number : Nat}
    (hpasses : VfatRegionPasses fs image w.clusterOffset w.clusterEndOffset
      w.lastVfatSequenceNumber number)
    (hcycle : ReachesCycle (VfatLink fs image) (w.clusterNumber, number)) :
    ¬ Loop.Terminates (step fs image) w := by
  refine Loop.not_terminates_of_progress (P := fun w => AtVfatRegion w ∧ ∃ number,
    VfatRegionPasses fs image w.clusterOffset w.clusterEndOffset w.lastVfatSequenceNumber number ∧
    ReachesCycle (VfatLink fs image) (w.clusterNumber, number)) ?_ ⟨hw, number, hpasses, hcycle⟩
  rintro w ⟨hw, number, hpasses, hcycle⟩
  obtain ⟨⟨c, number'⟩, ⟨h2, hlinks, hpasses'⟩, hcycle'⟩ := hcycle.step
  obtain ⟨w', hreach, hw', hc, hoffset, hend, hnumber⟩ :=
    progress_of_vfatRegionPasses hw h2 hpasses hlinks
  refine ⟨w', hreach, hw', number', ?_, ?_⟩
  · rw [hoffset, hend, hnumber]
    exact hpasses'
  · rw [hc]
    exact hcycle'

/-- A walk back that does not end is on its way to a cycle, as there are finitely
many regions. -/
theorem vfatCycle_of_not_terminates {w : EntryLookup} (hw : AtVfatRegion w)
    (hcluster : w.clusterNumber < 2 ^ 32) (hnumber : w.lastVfatSequenceNumber < 32)
    (h : ¬ Loop.Terminates (step fs image) w) :
    ∃ number, VfatRegionPasses fs image w.clusterOffset w.clusterEndOffset
        w.lastVfatSequenceNumber number ∧
      ReachesCycle (VfatLink fs image) (w.clusterNumber, number) := by
  obtain ⟨f, rfl, hf⟩ := Loop.exists_sequence
    (P := fun w => AtVfatRegion w ∧ ¬ Loop.Terminates (step fs image) w)
    (R := fun w w' => 2 < w.clusterNumber ∧ NextVfatRegion fs image w w' ∧
      VfatRegionPasses fs image w.clusterOffset w.clusterEndOffset w.lastVfatSequenceNumber
        w'.lastVfatSequenceNumber)
    (fun w ⟨hw, hendless⟩ => by
      obtain ⟨h2, w', hnext, hpasses⟩ := vfatRegionPasses_of_endless hw hendless
      exact ⟨w', ⟨h2, hnext, hpasses⟩, hnext.at_region, hnext.endless⟩) ⟨hw, h⟩
  have hbound : ∀ n, (f n).clusterNumber < 2 ^ 32 ∧ (f n).lastVfatSequenceNumber < 32 := by
    intro n
    induction n with
    | zero => exact ⟨hcluster, hnumber⟩
    | succ n ih =>
      obtain ⟨_, hnext, hpasses⟩ := (hf n).2
      obtain ⟨reversed, _, hget⟩ := hnext.links
      exact ⟨getClusterNumberByIndex_lt hget, vfatRegionPasses_lt hpasses ih.2⟩
  refine ⟨(f 1).lastVfatSequenceNumber, (hf 0).2.2.2, ?_⟩
  apply ReachesCycle.of_sequence
    (f := fun n => ((f n).clusterNumber, (f (n + 1)).lastVfatSequenceNumber)) ?_
    ((Set.finite_Iio (2 ^ 32)).prod (Set.finite_Iio 32))
    (fun n => ⟨(hbound n).1, (hbound (n + 1)).2⟩)
  intro n
  obtain ⟨h2, hnext, _⟩ := (hf n).2
  have hpasses := (hf (n + 1)).2.2.2
  rw [hnext.offset, hnext.endOffset] at hpasses
  exact ⟨h2, hnext.links, hpasses⟩

/-- From a cycle that it can reach, the walk forward comes to region after region. -/
theorem not_terminates_of_exfatCycle {w : EntryLookup} (hw : InExfatRegion w)
    (hresult : w.result = true) {hasStream : Bool}
    (hpasses : ExfatPasses fs image w.clusterEndOffset w.clusterOffset w.hasSafeDirectoryEntry
      hasStream)
    (hcycle : ReachesCycle (ExfatLink fs image) (w.clusterNumber, hasStream)) :
    ¬ Loop.Terminates (step fs image) w := by
  refine Loop.not_terminates_of_progress (P := fun w => (InExfatRegion w ∧ w.result = true) ∧
    ∃ hasStream, ExfatPasses fs image w.clusterEndOffset w.clusterOffset w.hasSafeDirectoryEntry
      hasStream ∧ ReachesCycle (ExfatLink fs image) (w.clusterNumber, hasStream)) ?_
    ⟨⟨hw, hresult⟩, hasStream, hpasses, hcycle⟩
  rintro w ⟨⟨hw, hresult⟩, hasStream, hpasses, hcycle⟩
  obtain ⟨⟨c, hasStream'⟩, ⟨hlinks, hc, hpasses'⟩, hcycle'⟩ := hcycle.step
  obtain ⟨w', hreach, hnext, hnumber, hstream⟩ :=
    progress_of_exfatPasses hpasses hw hresult rfl rfl rfl hlinks hc
  refine ⟨w', hreach, ⟨hnext.at_region, hnext.result⟩, hasStream', ?_, ?_⟩
  · rw [hnext.offset, hnext.endOffset, hnumber, hstream]
    exact hpasses'
  · rw [hnumber]
    exact hcycle'

/-- A walk forward that does not end is on its way to a cycle. -/
theorem exfatCycle_of_not_terminates {w : EntryLookup} (hw : InExfatRegion w)
    (hcluster : w.clusterNumber < 2 ^ 32) (h : ¬ Loop.Terminates (step fs image) w) :
    ∃ hasStream, ExfatPasses fs image w.clusterEndOffset w.clusterOffset w.hasSafeDirectoryEntry
        hasStream ∧
      ReachesCycle (ExfatLink fs image) (w.clusterNumber, hasStream) := by
  obtain ⟨f, rfl, hf⟩ := Loop.exists_sequence
    (P := fun w => InExfatRegion w ∧ ¬ Loop.Terminates (step fs image) w)
    (R := fun w w' => NextExfatRegion fs w w' ∧
      ExfatPasses fs image w.clusterEndOffset w.clusterOffset w.hasSafeDirectoryEntry
        w'.hasSafeDirectoryEntry)
    (fun w ⟨hw, hendless⟩ => by
      obtain ⟨w', hnext, hendless', hpasses⟩ := exfatPasses_of_endless hendless hw
      exact ⟨w', ⟨hnext, hpasses⟩, hnext.at_region, hendless'⟩) ⟨hw, h⟩
  have hbound : ∀ n, (f n).clusterNumber < 2 ^ 32 := by
    intro n
    cases n with
    | zero => exact hcluster
    | succ n => exact getClusterNumberByIndex_lt (hf n).2.1.links
  refine ⟨(f 1).hasSafeDirectoryEntry, (hf 0).2.2, ?_⟩
  apply ReachesCycle.of_sequence
    (f := fun n => ((f n).clusterNumber, (f (n + 1)).hasSafeDirectoryEntry)) ?_
    ((Set.finite_Iio (2 ^ 32)).prod Set.finite_univ) (fun n => ⟨hbound n, trivial⟩)
  intro n
  have hnext := (hf n).2.1
  have hpasses := (hf (n + 1)).2.2
  rw [hnext.offset, hnext.endOffset] at hpasses
  exact ⟨hnext.links, hnext.isCluster, hpasses⟩

theorem identifierCluster_lt (ioHandle : IoHandle) (identifier : Nat) :
    identifierCluster ioHandle identifier < 2 ^ 32 :=
  Nat.mod_lt _ (by norm_num)

theorem start_of_hasEntry {identifier : Nat} {entry : DirectoryEntry}
    (hread : HasEntry fs image (toOff64 identifier) entry)
    (htype : entry.entryType = .shortName ∨ entry.entryType = .exfatFileEntry) :
    start fs image identifier = .next (ofEntry fs.ioHandle identifier entry) := by
  unfold HasEntry at hread
  unfold start
  rw [hread]
  apply if_neg
  rintro ⟨hshort, hfile⟩
  exact htype.elim hshort hfile

/-- The state before the loops for a short name. -/
theorem start_shortName {identifier : Nat} {entry : DirectoryEntry}
    (hread : HasEntry fs image (toOff64 identifier) entry) (htype : entry.entryType = .shortName) :
    ∃ w, start fs image identifier = .next w ∧ AtVfatRegion w ∧
      w.clusterNumber = identifierCluster fs.ioHandle identifier ∧
      w.clusterOffset = toOff64 ((identifier : Int) - directoryEntrySize) ∧
      w.clusterEndOffset = identifierEnd fs.ioHandle identifier ∧ w.lastVfatSequenceNumber = 0 := by
  refine ⟨_, start_of_hasEntry hread (.inl htype), ⟨htype, ?_, rfl⟩, ?_⟩
  · exact decide_eq_false (not_not.mpr htype)
  · dsimp only [ofEntry]
    exact ⟨rfl, if_pos htype, rfl, rfl⟩

/-- The state before the loops for an exFAT file entry. -/
theorem start_fileEntry {identifier : Nat} {entry : DirectoryEntry}
    (hread : HasEntry fs image (toOff64 identifier) entry)
    (htype : entry.entryType = .exfatFileEntry) :
    ∃ w, start fs image identifier = .next w ∧ InExfatRegion w ∧ w.result = true ∧
      w.clusterNumber = identifierCluster fs.ioHandle identifier ∧
      w.clusterOffset = toOff64 ((identifier : Int) + directoryEntrySize) ∧
      w.clusterEndOffset = identifierEnd fs.ioHandle identifier ∧
      w.hasSafeDirectoryEntry = false := by
  have hshort : entry.entryType ≠ .shortName := by
    rw [htype]
    nofun
  refine ⟨_, start_of_hasEntry hread (.inr htype), ⟨htype, decide_eq_true hshort, rfl⟩, rfl, ?_⟩
  dsimp only [ofEntry]
  exact ⟨rfl, if_neg hshort, rfl, rfl⟩

theorem ofRead_next {ioHandle : IoHandle} {identifier : Nat} {w : EntryLookup}
    {read : Except Error (Option DirectoryEntry)} (h : ofRead ioHandle identifier read = .next w) :
    ∃ entry, read = .ok (some entry) ∧
      (entry.entryType = .shortName ∨ entry.entryType = .exfatFileEntry) := by
  unfold ofRead at h
  split at h
  · cases h
  · cases h
  next entry =>
  split at h
  · cases h
  next htype =>
  refine ⟨entry, rfl, ?_⟩
  rwa [not_and_or, not_not, not_not] at htype

/-- The loops are for an entry of one of the two types. -/
theorem start_next {identifier : Nat} {w : EntryLookup} (h : start fs image identifier = .next w) :
    ∃ entry, HasEntry fs image (toOff64 identifier) entry ∧
      (entry.entryType = .shortName ∨ entry.entryType = .exfatFileEntry) :=
  ofRead_next h

theorem returns_of_start {identifier : Nat} {w : EntryLookup}
    {result : Except Error (Option DirectoryEntry)}
    (h : LookupReturns fs image identifier result) (hstart : start fs image identifier = .next w) :
    Loop.Returns (step fs image) w result := by
  rcases h with hdone | ⟨w', hnext, hreturns⟩
  · cases hstart.symm.trans hdone
  · rwa [Loop.Step.next.inj (hstart.symm.trans hnext)]

theorem not_returns_of_vfatCycle {identifier : Nat} (h : VfatCycle fs image identifier) :
    ¬ ∃ result, LookupReturns fs image identifier result := by
  rintro ⟨result, hreturns⟩
  obtain ⟨⟨entry, hread, htype⟩, number, hpasses, hcycle⟩ := h
  obtain ⟨w, hstart, hw, hcluster, hoffset, hend, hnumber⟩ := start_shortName hread htype
  rw [← hoffset, ← hend, ← hnumber] at hpasses
  rw [← hcluster] at hcycle
  exact not_terminates_of_vfatCycle hw hpasses hcycle ⟨result, returns_of_start hreturns hstart⟩

theorem not_returns_of_exfatCycle {identifier : Nat} (h : ExfatCycle fs image identifier) :
    ¬ ∃ result, LookupReturns fs image identifier result := by
  rintro ⟨result, hreturns⟩
  obtain ⟨⟨entry, hread, htype⟩, hasStream, hpasses, hcycle⟩ := h
  obtain ⟨w, hstart, hw, hresult, hcluster, hoffset, hend, hstream⟩ := start_fileEntry hread htype
  rw [← hoffset, ← hend, ← hstream] at hpasses
  rw [← hcluster] at hcycle
  exact not_terminates_of_exfatCycle hw hresult hpasses hcycle
    ⟨result, returns_of_start hreturns hstart⟩

end Identifier

end EntryLookup

open EntryLookup in
/-- The lookup of an entry by its identifier returns, for every format, image and
tables, exactly when the walk from the entry does not come to a cycle of clusters
whose slots let it pass. -/
theorem lookup_returns_iff (fs : FileSystem) (image : List UInt8) (identifier : Nat) :
    (∃ result, LookupReturns fs image identifier result) ↔
      ¬ VfatCycle fs image identifier ∧ ¬ ExfatCycle fs image identifier := by
  constructor
  · intro hreturns
    exact ⟨fun h => not_returns_of_vfatCycle h hreturns,
      fun h => not_returns_of_exfatCycle h hreturns⟩
  · rintro ⟨hvfat, hexfat⟩
    cases hstart : start fs image identifier with
    | done result => exact ⟨result, .inl hstart⟩
    | next w =>
      suffices hends : Loop.Terminates (step fs image) w by
        obtain ⟨result, hreturns⟩ := hends
        exact ⟨result, .inr ⟨w, hstart, hreturns⟩⟩
      by_contra hendless
      obtain ⟨entry, hread, htype | htype⟩ := start_next hstart
      · obtain ⟨w', hstart', hw, hcluster, hoffset, hend, hnumber⟩ := start_shortName hread htype
        obtain rfl : w = w' := Loop.Step.next.inj (hstart.symm.trans hstart')
        obtain ⟨number, hpasses, hcycle⟩ := vfatCycle_of_not_terminates hw
          (hcluster ▸ identifierCluster_lt _ _) (hnumber ▸ Nat.zero_lt_succ 31) hendless
        rw [hoffset, hend, hnumber] at hpasses
        rw [hcluster] at hcycle
        exact hvfat ⟨⟨entry, hread, htype⟩, number, hpasses, hcycle⟩
      · obtain ⟨w', hstart', hw, _, hcluster, hoffset, hend, hstream⟩ :=
          start_fileEntry hread htype
        obtain rfl : w = w' := Loop.Step.next.inj (hstart.symm.trans hstart')
        obtain ⟨hasStream, hpasses, hcycle⟩ := exfatCycle_of_not_terminates hw
          (hcluster ▸ identifierCluster_lt _ _) hendless
        rw [hoffset, hend, hstream] at hpasses
        rw [hcluster] at hcycle
        exact hexfat ⟨⟨entry, hread, htype⟩, hasStream, hpasses, hcycle⟩

/-- The root directory is at 1024, the cluster blocks are at 1536, and the last
of the clusters is linked to itself. -/
def loopedFileSystem (format : FileSystemFormat) : FileSystem where
  ioHandle :=
    { volumeSize := 3072
      fileSystemFormat := format
      bytesPerSector := 512
      clusterBlockSize := 512
      totalNumberOfClusters := 5
      rootDirectoryOffset := 1024
      firstClusterOffset := 1536 }
  allocationTable := ⟨[0, 0, 0, 0, 4], by decide, by decide, by decide⟩
  reversedAllocationTable := some ⟨[0, 0, 0, 0, 4], by decide, by decide, by decide⟩

/-- An entry at 1056, with a deleted one before it, one behind it and one in the
cluster that is linked to itself. -/
def loopedImage : List UInt8 :=
  List.replicate 1024 0 ++ 0xe5 :: (List.replicate 31 0 ++ 0x85 :: (List.replicate 31 0 ++
    0xe5 :: (List.replicate 1471 0 ++ 0xe5 :: List.replicate 511 0)))

private theorem hasEntry_of_entryType {fs : FileSystem} {image : List UInt8} {offset : Int}
    {entryType : DirectoryEntryType}
    (h : (readFileIOHandle image offset fs.ioHandle.fileSystemFormat).map
      (Option.map DirectoryEntry.entryType) = .ok (some entryType)) :
    ∃ entry, HasEntry fs image offset entry ∧ entry.entryType = entryType := by
  obtain ⟨read, hread, hmap⟩ := map_eq_ok_iff.mp h
  obtain ⟨entry, rfl, htype⟩ := Option.map_eq_some_iff.mp hmap
  exact ⟨entry, hread, htype⟩

open EntryLookup in
/-- From the entry at 1056 the walks come to the cluster 4, and do not leave it. -/
theorem not_returns_looped :
    (¬ ∃ result, LookupReturns (loopedFileSystem .fat16) loopedImage 1056 result) ∧
      ¬ ∃ result, LookupReturns (loopedFileSystem .exfat) loopedImage 1056 result := by
  constructor
  · obtain ⟨first, hfirst, htype⟩ : ∃ entry, HasEntry (loopedFileSystem .fat16)
        loopedImage 1024 entry ∧ entry.entryType = .unallocated :=
      hasEntry_of_entryType (by decide +kernel)
    obtain ⟨second, hsecond, htype'⟩ : ∃ entry, HasEntry (loopedFileSystem .fat16)
        loopedImage 2560 entry ∧ entry.entryType = .unallocated :=
      hasEntry_of_entryType (by decide +kernel)
    apply not_returns_of_vfatCycle
    refine ⟨hasEntry_of_entryType (by decide +kernel), 0, .inr ⟨by decide, ?_⟩, (4, 0), .refl,
      .single ⟨by decide, ⟨_, rfl, rfl⟩, .inr ⟨by decide, ?_⟩⟩⟩
    · exact .other hfirst (htype ▸ nofun) (htype ▸ nofun)
    · exact .other hsecond (htype' ▸ nofun) (htype' ▸ nofun)
  · obtain ⟨first, hfirst, htype⟩ : ∃ entry, HasEntry (loopedFileSystem .exfat)
        loopedImage 1088 entry ∧ entry.entryType = .exfatUnknown :=
      hasEntry_of_entryType (by decide +kernel)
    obtain ⟨second, hsecond, htype'⟩ : ∃ entry, HasEntry (loopedFileSystem .exfat)
        loopedImage 2560 entry ∧ entry.entryType = .exfatUnknown :=
      hasEntry_of_entryType (by decide +kernel)
    apply not_returns_of_exfatCycle
    refine ⟨hasEntry_of_entryType (by decide +kernel), false, ?_, (4, false), .refl,
      .single ⟨rfl, by decide, ?_⟩⟩
    · exact .other (by decide) hfirst (htype ▸ nofun) (htype ▸ nofun) (htype ▸ nofun)
    · exact .other (by decide) hsecond (htype' ▸ nofun) (htype' ▸ nofun) (htype' ▸ nofun)

end FsFat
