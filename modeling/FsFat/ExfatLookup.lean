import FsFat.ShortNameLookup

/-!
The lookup of an exFAT file entry against the listing of its directory. The walk
forward keeps the directory entry into which the data stream was read, so no
further entry can be read behind a data stream. It gives an entry only when the
name entries come before a data stream, or when it finds no data stream at all.
-/

namespace FsFat

open Bytes DirectoryEntry DirectoryReadState EntryLookup

/-! ### What the walk forward collects -/

section Walk

variable (fs : FileSystem) (image : List UInt8)

/-- The slot at the offset ends the walk: a terminator or another file entry. -/
def EndsWalkOn (offset : Int) : Prop :=
  readFileIOHandle image offset fs.ioHandle.fileSystemFormat = .ok none ∨
    ∃ entry, HasEntry fs image offset entry ∧ entry.entryType = .exfatFileEntry

/-- The walk leaves the region: at its end, or at a slot of another kind. Behind
a data stream no slot can be read. -/
def LeavesRegionOn (hasStream : Bool) (offset endOffset : Int) : Prop :=
  endOffset ≤ offset ∨ (hasStream = false ∧ offset < endOffset) ∧
    ∃ entry, HasEntry fs image offset entry ∧ entry.entryType ≠ .exfatDataStream ∧
      entry.entryType ≠ .exfatFileEntryName ∧ entry.entryType ≠ .exfatFileEntry

/-- The number of a cluster for which the walk goes on. -/
def IsWalkedCluster (c : Nat) : Prop := 2 ≤ c ∧ c < 0xfffffff0

/-- The name data of the name entries from an offset in the region of a cluster
on, and the data stream if there is one, up to a slot that ends the walk or a
link to no further cluster. -/
inductive CollectsOn : Nat → Int → Int → Bool → List (List UInt8) → Option DirectoryEntry →
    Prop where
  | ended {c : Nat} {offset endOffset : Int} : offset < endOffset →
      EndsWalkOn fs image offset → CollectsOn c offset endOffset false [] none
  | name {c : Nat} {offset endOffset : Int} {entry : DirectoryEntry} {names : List (List UInt8)}
      {stream : Option DirectoryEntry} : offset < endOffset →
      HasEntry fs image offset entry → entry.entryType = .exfatFileEntryName →
      CollectsOn c (offset + directoryEntrySize) endOffset false names stream →
      CollectsOn c offset endOffset false (entry.nameData :: names) stream
  | dataStream {c : Nat} {offset endOffset : Int} {entry : DirectoryEntry} :
      offset < endOffset → HasEntry fs image offset entry → entry.entryType = .exfatDataStream →
      CollectsOn c (offset + directoryEntrySize) endOffset true [] none →
      CollectsOn c offset endOffset false [] (some entry)
  | last {c c' : Nat} {offset endOffset : Int} {hasStream : Bool} :
      LeavesRegionOn fs image hasStream offset endOffset →
      fs.allocationTable.getClusterNumberByIndex (toInt32 c) = .ok c' → ¬ IsWalkedCluster c' →
      CollectsOn c offset endOffset hasStream [] none
  | linked {c c' : Nat} {offset endOffset : Int} {hasStream : Bool} {names : List (List UInt8)}
      {stream : Option DirectoryEntry} : LeavesRegionOn fs image hasStream offset endOffset →
      fs.allocationTable.getClusterNumberByIndex (toInt32 c) = .ok c' → IsWalkedCluster c' →
      CollectsOn c' (clusterOffset fs.ioHandle c') (clusterEnd fs.ioHandle c') hasStream names
        stream →
      CollectsOn c offset endOffset hasStream names stream

/-- The name data and the data stream that the lookup finds for the file entry
with an identifier. -/
def FindsEntries (identifier : Nat) (names : List (List UInt8))
    (stream : Option DirectoryEntry) : Prop :=
  CollectsOn fs image (identifierCluster fs.ioHandle identifier)
    (toOff64 ((identifier : Int) + directoryEntrySize)) (identifierEnd fs.ioHandle identifier)
    false names stream

end Walk

/-- The entry with the start cluster and the sizes of a data stream. -/
def withDataStream (entry : DirectoryEntry) : Option DirectoryEntry → DirectoryEntry
  | none => entry
  | some stream =>
    { entry with
      dataStartCluster := stream.dataStartCluster
      dataSize := stream.dataSize
      validDataSize := stream.validDataSize }

section Collects

variable {fs : FileSystem} {image : List UInt8} {w : EntryLookup}

/-- In the loops for a file entry. -/
structure WalksOn (w : EntryLookup) : Prop where
  entryType : w.currentFileEntry.entryType = .exfatFileEntry
  streams : w.hasDataStreamEntry = w.hasSafeDirectoryEntry
  result : w.result = true

/-- What the next state of the walk has of the state before it. -/
structure ContinuedOn (w' : EntryLookup) (entry : DirectoryEntry) (c : Nat)
    (offset endOffset : Int) (hasStream : Bool) (names : List (List UInt8)) : Prop where
  walksOn : WalksOn w'
  currentFileEntry : w'.currentFileEntry = entry
  clusterNumber : w'.clusterNumber = c
  clusterOffset : w'.clusterOffset = offset
  clusterEndOffset : w'.clusterEndOffset = endOffset
  hasStream : w'.hasSafeDirectoryEntry = hasStream
  nameEntries : w'.nameEntries = names

/-- The walk in a region at a slot that ends it. -/
theorem step_of_endsWalkOn (hw : WalksOn w) (hin : w.inRegion = true)
    (hstream : w.hasSafeDirectoryEntry = false) (hlt : w.clusterOffset < w.clusterEndOffset)
    (h : EndsWalkOn fs image w.clusterOffset) :
    step fs image w = .done w.finishFileEntry := by
  rw [step_of_fileEntry hw.entryType]
  rcases h with hnone | ⟨entry, hread, htype⟩
  · simp only [exfatStep, hin, if_true, hlt, hstream, Bool.false_eq_true, if_false, hnone]
    rfl
  · unfold HasEntry at hread
    simp only [exfatStep, hin, if_true, hlt, hstream, Bool.false_eq_true, if_false, hread,
      takeExfatEntry, htype]
    rfl

/-- At a name entry. -/
theorem step_of_name (hw : WalksOn w) (hin : w.inRegion = true)
    (hstream : w.hasSafeDirectoryEntry = false) (hlt : w.clusterOffset < w.clusterEndOffset)
    {entry : DirectoryEntry} (hread : HasEntry fs image w.clusterOffset entry)
    (hname : entry.entryType = .exfatFileEntryName) :
    ∃ w', step fs image w = .next w' ∧ w'.inRegion = true ∧
      ContinuedOn w' w.currentFileEntry w.clusterNumber (w.clusterOffset + directoryEntrySize)
        w.clusterEndOffset false (w.nameEntries ++ [entry.nameData]) := by
  unfold HasEntry at hread
  rw [step_of_fileEntry hw.entryType]
  simp only [exfatStep, hin, if_true, hlt, hstream, Bool.false_eq_true, if_false, hread,
    takeExfatEntry, hname]
  exact ⟨_, rfl, rfl, ⟨hw.entryType, hw.streams.trans hstream, rfl⟩, rfl, rfl, rfl, rfl, rfl, rfl⟩

/-- At a data stream. -/
theorem step_of_dataStream (hw : WalksOn w) (hin : w.inRegion = true)
    (hstream : w.hasSafeDirectoryEntry = false) (hlt : w.clusterOffset < w.clusterEndOffset)
    {entry : DirectoryEntry} (hread : HasEntry fs image w.clusterOffset entry)
    (hdata : entry.entryType = .exfatDataStream) :
    ∃ w', step fs image w = .next w' ∧ w'.inRegion = true ∧
      ContinuedOn w' (withDataStream w.currentFileEntry (some entry)) w.clusterNumber
        (w.clusterOffset + directoryEntrySize) w.clusterEndOffset true w.nameEntries := by
  unfold HasEntry at hread
  rw [step_of_fileEntry hw.entryType]
  simp only [exfatStep, hin, if_true, hlt, hstream, Bool.false_eq_true, if_false, hread,
    takeExfatEntry, hdata, hw.streams.trans hstream]
  exact ⟨_, rfl, rfl, ⟨hw.entryType, rfl, rfl⟩, rfl, rfl, rfl, rfl, rfl, rfl⟩

/-- Where the walk leaves a region for a cluster of the table. -/
theorem step_of_leavesRegionOn (hw : WalksOn w) (hin : w.inRegion = true)
    (hleaves : LeavesRegionOn fs image w.hasSafeDirectoryEntry w.clusterOffset w.clusterEndOffset)
    {c : Nat}
    (hlinks : fs.allocationTable.getClusterNumberByIndex (toInt32 w.clusterNumber) = .ok c) :
    ∃ w', step fs image w = .next w' ∧ w'.inRegion = false ∧
      ContinuedOn w' w.currentFileEntry c (FsFat.clusterOffset fs.ioHandle c)
        (clusterEnd fs.ioHandle c) w.hasSafeDirectoryEntry w.nameEntries := by
  rw [step_of_fileEntry hw.entryType]
  rcases hleaves with hle | ⟨⟨hstream, hlt⟩, entry, hread, hdata, hname, hfile⟩
  · simp only [exfatStep, hin, if_true, not_lt.mpr hle, if_false, afterExfatRegion, hw.result,
      hlinks, toCluster]
    exact ⟨_, rfl, rfl, ⟨hw.entryType, hw.streams, rfl⟩, rfl, rfl, rfl, rfl, rfl, rfl⟩
  · unfold HasEntry at hread
    have htake : takeExfatEntry fs w entry = afterExfatRegion fs { w with result := true } := by
      unfold takeExfatEntry
      split
      · next h => exact absurd h hdata
      · next h => exact absurd h hname
      · simp only [hfile, ne_eq, not_false_eq_true, decide_true]
    simp only [exfatStep, hin, if_true, hlt, hstream, Bool.false_eq_true, if_false, hread, htake,
      afterExfatRegion, hlinks, toCluster]
    exact ⟨_, rfl, rfl, ⟨hw.entryType, hw.streams.trans hstream, rfl⟩, rfl, rfl, rfl, rfl, rfl, rfl⟩

/-- Before a region: the walk enters it, or it is over. -/
theorem step_of_not_inRegionOn (fs : FileSystem) (image : List UInt8) (hw : WalksOn w)
    (hin : w.inRegion = false) :
    (IsWalkedCluster w.clusterNumber ∧ step fs image w = .next { w with inRegion := true } ∧
        WalksOn { w with inRegion := true }) ∨
      (¬ IsWalkedCluster w.clusterNumber ∧ step fs image w = .done w.finishFileEntry) := by
  rw [step_of_fileEntry hw.entryType]
  by_cases hc : 2 ≤ w.clusterNumber ∧ w.clusterNumber < 0xfffffff0
  · refine .inl ⟨hc, ?_, hw.entryType, hw.streams, hw.result⟩
    simp only [exfatStep, hin, Bool.false_eq_true, if_false, ge_iff_le, hc, and_self, if_true]
  · refine .inr ⟨hc, ?_⟩
    simp only [exfatStep, hin, Bool.false_eq_true, if_false, ge_iff_le, hc]

/-- What the walk can do in a region. -/
theorem exfatRegion_cases (fs : FileSystem) (image : List UInt8) (hw : WalksOn w)
    (hin : w.inRegion = true) :
    ((w.hasSafeDirectoryEntry = false ∧ w.clusterOffset < w.clusterEndOffset) ∧
        (EndsWalkOn fs image w.clusterOffset ∨
          ∃ entry, HasEntry fs image w.clusterOffset entry ∧
            (entry.entryType = .exfatFileEntryName ∨ entry.entryType = .exfatDataStream))) ∨
      (LeavesRegionOn fs image w.hasSafeDirectoryEntry w.clusterOffset w.clusterEndOffset ∧
        ∃ c, fs.allocationTable.getClusterNumberByIndex (toInt32 w.clusterNumber) = .ok c) ∨
      ∃ e, step fs image w = .done (.error e) := by
  have hafter (w₁ : EntryLookup) (hcluster : w₁.clusterNumber = w.clusterNumber)
      (hresult : w₁.result = true) :
      (∃ c, fs.allocationTable.getClusterNumberByIndex (toInt32 w.clusterNumber) = .ok c) ∨
        ∃ e, afterExfatRegion fs w₁ = .done (.error e) := by
    simp only [afterExfatRegion, hresult, if_true, hcluster]
    cases fs.allocationTable.getClusterNumberByIndex (toInt32 w.clusterNumber) with
    | error e => exact .inr ⟨_, rfl⟩
    | ok c => exact .inl ⟨c, rfl⟩
  have hstep : step fs image w = exfatStep fs image w := step_of_fileEntry hw.entryType
  by_cases hlt : w.clusterOffset < w.clusterEndOffset
  swap
  · simp only [exfatStep, hin, if_true, hlt, if_false] at hstep
    rcases hafter w rfl hw.result with hlinks | ⟨e, he⟩
    · exact .inr (.inl ⟨.inl (not_lt.mp hlt), hlinks⟩)
    · exact .inr (.inr ⟨e, hstep.trans he⟩)
  cases hstream : w.hasSafeDirectoryEntry with
  | true =>
    simp only [exfatStep, hin, if_true, hlt, hstream] at hstep
    exact .inr (.inr ⟨_, hstep⟩)
  | false =>
    simp only [exfatStep, hin, if_true, hlt, hstream, Bool.false_eq_true, if_false] at hstep
    cases hread : readFileIOHandle image w.clusterOffset fs.ioHandle.fileSystemFormat with
    | error e =>
      rw [hread] at hstep
      exact .inr (.inr ⟨e, hstep⟩)
    | ok read =>
      cases read with
      | none => exact .inl ⟨⟨rfl, hlt⟩, .inl (.inl hread)⟩
      | some entry =>
        rw [hread] at hstep
        simp only [takeExfatEntry] at hstep
        split at hstep
        · next hdata => exact .inl ⟨⟨rfl, hlt⟩, .inr ⟨entry, hread, .inr hdata⟩⟩
        · next hname => exact .inl ⟨⟨rfl, hlt⟩, .inr ⟨entry, hread, .inl hname⟩⟩
        · next hdata hname =>
          by_cases hfile : entry.entryType = .exfatFileEntry
          · exact .inl ⟨⟨rfl, hlt⟩, .inl (.inr ⟨entry, hread, hfile⟩)⟩
          · rcases hafter { w with result := entry.entryType ≠ .exfatFileEntry } rfl
              (decide_eq_true hfile) with hlinks | ⟨e, he⟩
            · exact .inr (.inl ⟨.inr ⟨⟨rfl, hlt⟩, entry, hread, hdata, hname, hfile⟩, hlinks⟩)
            · exact .inr (.inr ⟨e, hstep.trans he⟩)

/-- What an entry with a data stream and name entries comes to at the end of the walk. -/
def finishWith (entry : DirectoryEntry) (names : List (List UInt8))
    (stream : Option DirectoryEntry) : Except Error (Option DirectoryEntry) :=
  ((withDataStream entry stream).getNameFromExfatFileNameEntries names).map some

/-- Slots from which entries can be collected are walked through. -/
theorem returns_of_collectsOn {c : Nat} {offset endOffset : Int} {hasStream : Bool}
    {names : List (List UInt8)} {stream : Option DirectoryEntry}
    (h : CollectsOn fs image c offset endOffset hasStream names stream) {w : EntryLookup}
    (hw : WalksOn w) (hin : w.inRegion = true) (hcluster : w.clusterNumber = c)
    (hoffset : w.clusterOffset = offset) (hend : w.clusterEndOffset = endOffset)
    (hstream : w.hasSafeDirectoryEntry = hasStream) :
    Loop.Returns (step fs image) w
      (finishWith w.currentFileEntry (w.nameEntries ++ names) stream) := by
  induction h generalizing w with
  | ended hlt hends =>
    subst hoffset hend
    rw [List.append_nil]
    exact .of_done (step_of_endsWalkOn hw hin hstream hlt hends)
  | @name _ _ _ _ names _ hlt hread hname _ ih =>
    subst hcluster hoffset hend
    obtain ⟨w', hstep, hin', hnext⟩ := step_of_name hw hin hstream hlt hread hname
    have hreturns := ih hnext.walksOn hin' hnext.clusterNumber hnext.clusterOffset
      hnext.clusterEndOffset hnext.hasStream
    rw [hnext.currentFileEntry, hnext.nameEntries, List.append_assoc,
      List.singleton_append] at hreturns
    exact .of_next hstep hreturns
  | dataStream hlt hread hdata _ ih =>
    subst hcluster hoffset hend
    obtain ⟨w', hstep, hin', hnext⟩ := step_of_dataStream hw hin hstream hlt hread hdata
    have hreturns := ih hnext.walksOn hin' hnext.clusterNumber hnext.clusterOffset
      hnext.clusterEndOffset hnext.hasStream
    rw [hnext.currentFileEntry, hnext.nameEntries] at hreturns
    exact .of_next hstep hreturns
  | last hleaves hlinks hc =>
    subst hcluster hoffset hend hstream
    obtain ⟨w', hstep, hin', hnext⟩ := step_of_leavesRegionOn hw hin hleaves hlinks
    rw [← hnext.clusterNumber] at hc
    obtain ⟨_, hdone⟩ := (step_of_not_inRegionOn fs image hnext.walksOn hin').resolve_left
      fun ⟨hc', _⟩ => hc hc'
    rw [List.append_nil, ← hnext.currentFileEntry, ← hnext.nameEntries]
    exact .of_next hstep (.of_done hdone)
  | linked hleaves hlinks hc _ ih =>
    subst hcluster hoffset hend hstream
    obtain ⟨w', hstep, hin', hnext⟩ := step_of_leavesRegionOn hw hin hleaves hlinks
    rw [← hnext.clusterNumber] at hc
    obtain ⟨_, henter, hw₁⟩ := (step_of_not_inRegionOn fs image hnext.walksOn hin').resolve_right
      fun ⟨hc', _⟩ => hc' hc
    have hreturns := ih hw₁ rfl hnext.clusterNumber hnext.clusterOffset hnext.clusterEndOffset
      hnext.hasStream
    rw [← hnext.currentFileEntry, ← hnext.nameEntries]
    exact .of_next hstep (.of_next henter hreturns)

/-- What a state collects from where it is. -/
def CollectsOnAt (fs : FileSystem) (image : List UInt8) (w : EntryLookup)
    (names : List (List UInt8)) (stream : Option DirectoryEntry) : Prop :=
  (w.inRegion = false ∧ ¬ IsWalkedCluster w.clusterNumber) ∧ names = [] ∧ stream = none ∨
    (w.inRegion = true ∨ IsWalkedCluster w.clusterNumber) ∧
      CollectsOn fs image w.clusterNumber w.clusterOffset w.clusterEndOffset
        w.hasSafeDirectoryEntry names stream

/-- Behind a data stream nothing is collected. -/
theorem CollectsOn.of_hasStream {c : Nat} {offset endOffset : Int} {names : List (List UInt8)}
    {stream : Option DirectoryEntry}
    (h : CollectsOn fs image c offset endOffset true names stream) : names = [] ∧ stream = none := by
  generalize hstream : true = hasStream at h
  induction h with
  | ended => cases hstream
  | name => cases hstream
  | dataStream => cases hstream
  | last => exact ⟨rfl, rfl⟩
  | linked _ _ _ _ ih => exact ih hstream

/-- A walk that returns without an error has collected its result. -/
theorem collectsOnAt_of_returns {found : DirectoryEntry}
    (h : Loop.Returns (step fs image) w (.ok (some found))) : WalksOn w →
    ∃ names stream, CollectsOnAt fs image w names stream ∧
      finishWith w.currentFileEntry (w.nameEntries ++ names) stream = .ok (some found) := by
  have hfinish {w : EntryLookup} (hdone : step fs image w = .done w.finishFileEntry)
      (hstep : step fs image w = .done (.ok (some found))) :
      finishWith w.currentFileEntry (w.nameEntries ++ []) none = .ok (some found) := by
    injection hdone.symm.trans hstep with hresult
    rw [List.append_nil]
    exact hresult
  refine h.induction (P := fun w => WalksOn w → ∃ names stream,
    CollectsOnAt fs image w names stream ∧
      finishWith w.currentFileEntry (w.nameEntries ++ names) stream = .ok (some found)) ?_ ?_
  · intro w hstep hw
    cases hin : w.inRegion with
    | false =>
      rcases step_of_not_inRegionOn fs image hw hin with ⟨_, henter, _⟩ | ⟨hc, hdone⟩
      · cases henter.symm.trans hstep
      · exact ⟨[], none, .inl ⟨⟨hin, hc⟩, rfl, rfl⟩, hfinish hdone hstep⟩
    | true =>
      rcases exfatRegion_cases fs image hw hin with
        ⟨⟨hstream, hlt⟩, hends | ⟨entry, hread, hname | hdata⟩⟩ | ⟨hleaves, c, hlinks⟩ | ⟨e, he⟩
      · have hcollects : CollectsOn fs image w.clusterNumber w.clusterOffset w.clusterEndOffset
            w.hasSafeDirectoryEntry [] none := by
          rw [hstream]
          exact .ended hlt hends
        exact ⟨[], none, .inr ⟨.inl hin, hcollects⟩,
          hfinish (step_of_endsWalkOn hw hin hstream hlt hends) hstep⟩
      · obtain ⟨w', hnext, _⟩ := step_of_name hw hin hstream hlt hread hname
        cases hnext.symm.trans hstep
      · obtain ⟨w', hnext, _⟩ := step_of_dataStream hw hin hstream hlt hread hdata
        cases hnext.symm.trans hstep
      · obtain ⟨w', hnext, _⟩ := step_of_leavesRegionOn hw hin hleaves hlinks
        cases hnext.symm.trans hstep
      · injection he.symm.trans hstep with hresult
        cases hresult
  · intro w w' hstep ih hw
    cases hin : w.inRegion with
    | false =>
      rcases step_of_not_inRegionOn fs image hw hin with ⟨hc, henter, hw₁⟩ | ⟨_, hdone⟩
      · injection henter.symm.trans hstep with heq
        subst heq
        obtain ⟨names, stream, hcollects, hresult⟩ := ih hw₁
        obtain ⟨_, hcollects⟩ := hcollects.resolve_left fun ⟨⟨hfalse, _⟩, _⟩ => by cases hfalse
        exact ⟨names, stream, .inr ⟨.inr hc, hcollects⟩, hresult⟩
      · cases hdone.symm.trans hstep
    | true =>
      rcases exfatRegion_cases fs image hw hin with
        ⟨⟨hstream, hlt⟩, hends | ⟨entry, hread, hname | hdata⟩⟩ | ⟨hleaves, c, hlinks⟩ | ⟨e, he⟩
      · cases (step_of_endsWalkOn hw hin hstream hlt hends).symm.trans hstep
      · obtain ⟨w₁, hstep₁, hin', hnext⟩ := step_of_name hw hin hstream hlt hread hname
        injection hstep₁.symm.trans hstep with heq
        subst heq
        obtain ⟨names, stream, hcollects, hresult⟩ := ih hnext.walksOn
        obtain ⟨_, hcollects⟩ := hcollects.resolve_left fun ⟨⟨hfalse, _⟩, _⟩ => by
          cases hfalse.symm.trans hin'
        rw [hnext.clusterNumber, hnext.clusterOffset, hnext.clusterEndOffset,
          hnext.hasStream] at hcollects
        rw [hnext.currentFileEntry, hnext.nameEntries, List.append_assoc,
          List.singleton_append] at hresult
        refine ⟨entry.nameData :: names, stream, .inr ⟨.inl hin, ?_⟩, hresult⟩
        rw [hstream]
        exact .name hlt hread hname hcollects
      · obtain ⟨w₁, hstep₁, hin', hnext⟩ := step_of_dataStream hw hin hstream hlt hread hdata
        injection hstep₁.symm.trans hstep with heq
        subst heq
        obtain ⟨names, stream, hcollects, hresult⟩ := ih hnext.walksOn
        obtain ⟨_, hcollects⟩ := hcollects.resolve_left fun ⟨⟨hfalse, _⟩, _⟩ => by
          cases hfalse.symm.trans hin'
        rw [hnext.clusterNumber, hnext.clusterOffset, hnext.clusterEndOffset,
          hnext.hasStream] at hcollects
        obtain ⟨rfl, rfl⟩ := hcollects.of_hasStream
        rw [hnext.currentFileEntry, hnext.nameEntries] at hresult
        refine ⟨[], some entry, .inr ⟨.inl hin, ?_⟩, hresult⟩
        rw [hstream]
        exact .dataStream hlt hread hdata hcollects
      · obtain ⟨w₁, hstep₁, hin', hnext⟩ := step_of_leavesRegionOn hw hin hleaves hlinks
        injection hstep₁.symm.trans hstep with heq
        subst heq
        obtain ⟨names, stream, hcollects, hresult⟩ := ih hnext.walksOn
        rw [hnext.currentFileEntry, hnext.nameEntries] at hresult
        refine ⟨names, stream, .inr ⟨.inl hin, ?_⟩, hresult⟩
        rcases hcollects with ⟨⟨_, hc⟩, rfl, rfl⟩ | ⟨hregion, hcollects⟩
        · rw [hnext.clusterNumber] at hc
          exact .last hleaves hlinks hc
        · have hc := hregion.resolve_left (by rw [hin']; exact Bool.false_ne_true)
          rw [hnext.clusterNumber] at hc
          rw [hnext.clusterNumber, hnext.clusterOffset, hnext.clusterEndOffset,
            hnext.hasStream] at hcollects
          exact .linked hleaves hlinks hc hcollects
      · cases he.symm.trans hstep

/-- The state before the loops for a file entry. -/
theorem ofEntry_fileEntry (ioHandle : IoHandle) (identifier : Nat) {entry : DirectoryEntry}
    (htype : entry.entryType = .exfatFileEntry) :
    ∃ w, ofEntry ioHandle identifier entry = w ∧ w.inRegion = true ∧
      ContinuedOn w { entry with identifier } (identifierCluster ioHandle identifier)
        (toOff64 ((identifier : Int) + directoryEntrySize)) (identifierEnd ioHandle identifier)
        false [] := by
  have hshort : entry.entryType ≠ .shortName := by
    rw [htype]
    nofun
  have hw : WalksOn (ofEntry ioHandle identifier entry) := ⟨htype, rfl, rfl⟩
  refine ⟨_, rfl, decide_eq_true hshort, ⟨hw, rfl, ?_, ?_, ?_, rfl, rfl⟩⟩
  · dsimp only [ofEntry]
  · exact if_neg hshort
  · dsimp only [ofEntry]

/-- The lookup of a file entry gives the entry with the data stream and the name
of the entries that it finds, whatever the image and the tables are. -/
theorem lookup_fileEntry_iff {identifier : Nat} {entry found : DirectoryEntry}
    (hread : HasEntry fs image (toOff64 identifier) entry)
    (htype : entry.entryType = .exfatFileEntry) :
    LookupReturns fs image identifier (.ok (some found)) ↔
      ∃ names stream, FindsEntries fs image identifier names stream ∧
        (withDataStream { entry with identifier } stream).getNameFromExfatFileNameEntries names =
          .ok found := by
  have hstart := start_of_hasEntry hread (.inr htype)
  obtain ⟨w, hofEntry, hin, hw⟩ := ofEntry_fileEntry fs.ioHandle identifier htype
  rw [hofEntry] at hstart
  unfold FindsEntries
  rw [← hw.currentFileEntry, ← hw.clusterNumber, ← hw.clusterOffset, ← hw.clusterEndOffset]
  constructor
  · intro hreturns
    obtain ⟨names, stream, hcollects, hresult⟩ :=
      collectsOnAt_of_returns (returns_of_start hreturns hstart) hw.walksOn
    obtain ⟨_, hcollects⟩ := hcollects.resolve_left fun ⟨⟨hfalse, _⟩, _⟩ => by
      cases hfalse.symm.trans hin
    rw [hw.hasStream] at hcollects
    rw [hw.nameEntries, List.nil_append] at hresult
    obtain ⟨named, hnamed, heq⟩ := map_eq_ok_iff.mp hresult
    rw [Option.some.inj heq] at hnamed
    exact ⟨names, stream, hcollects, hnamed⟩
  · rintro ⟨names, stream, hcollects, hnamed⟩
    have hreturns := returns_of_collectsOn hcollects hw.walksOn hin rfl rfl rfl hw.hasStream
    rw [hw.nameEntries, List.nil_append, finishWith, hnamed] at hreturns
    exact .inr ⟨w, hstart, hreturns⟩

end Collects

/-! ### The entry of the lookup and the entry of the listing -/

/-- The name that is put together from exFAT name entries. -/
def exfatNameOf (names : List (List UInt8)) : List UInt8 :=
  upToZeroUnit ((names.map (·.take 30)).flatten ++ [0, 0])

/-- Both are one to nine name entries, and put together they are the same name. -/
structure HasSameExfatName (names listed : List (List UInt8)) : Prop where
  length : 0 < names.length ∧ names.length ≤ 9
  listedLength : 0 < listed.length ∧ listed.length ≤ 9
  name : exfatNameOf names = exfatNameOf listed

/-- The start cluster and the sizes that the lookup takes are those in the data
stream of the set. They are zero when it finds no data stream. -/
structure HasSameStream (stream : Option DirectoryEntry) (data : List UInt8) : Prop where
  dataStartCluster : (stream.getD create).dataStartCluster = uint32At data 20
  dataSize : (stream.getD create).dataSize = uint64At data 24
  validDataSize : (stream.getD create).validDataSize = uint64At data 8

section Agrees

variable {names listed : List (List UInt8)} {entry found : DirectoryEntry}

theorem getNameFromExfatFileNameEntries_eq_ok_iff :
    entry.getNameFromExfatFileNameEntries names = .ok found ↔
      entry.name = none ∧ (0 < names.length ∧ names.length ≤ 9) ∧
        found = { entry with
          name := some (exfatNameOf names)
          nameSize := (exfatNameOf names).length
          isUnicode := true } := by
  unfold getNameFromExfatFileNameEntries exfatNameOf
  rw [setNameFromSegments_eq_ok_iff, List.length_map]

/-- The name of a listed entry is put together when it is first asked for. -/
theorem determineName_of_nameEntries (hname : entry.name = none)
    (hnames : entry.nameEntries = some listed) :
    entry.determineName = entry.getNameFromExfatFileNameEntries listed := by
  simp only [determineName, getName, hname, hnames, Option.isNone_none, Option.isSome_none,
    Bool.false_eq_true, if_true, if_false]

/-- A data stream that is found is the one of the listed entry exactly when its
values are. -/
theorem withDataStream_fields (file : DirectoryEntry) (stream : Option DirectoryEntry)
    (hzero : file.dataStartCluster = 0 ∧ file.dataSize = 0 ∧ file.validDataSize = 0) :
    withDataStream file stream = { file with
      dataStartCluster := (stream.getD create).dataStartCluster
      dataSize := (stream.getD create).dataSize
      validDataSize := (stream.getD create).validDataSize } := by
  cases stream with
  | none =>
    obtain ⟨hcluster, hsize, hvalid⟩ := hzero
    cases file
    cases hcluster
    cases hsize
    cases hvalid
    rfl
  | some stream => rfl

/-- The entry that the lookup makes of what it finds is the same file as the
listed one exactly when the data stream and the name are. -/
theorem ExfatEntrySet.found_same_iff (set : ExfatEntrySet) (names : List (List UInt8))
    (stream : Option DirectoryEntry) :
    (∃ found, (withDataStream { readExfatFileEntry set.fileEntry.2 with
          identifier := toUint64 set.fileEntry.1 } stream).getNameFromExfatFileNameEntries names =
        .ok found ∧ SameDirectoryEntry found set.listedEntry) ↔
      HasSameStream stream set.dataStream.2 ∧ HasSameExfatName names set.listedNames := by
  have hlisted : set.listedEntry.determineName =
      set.listedEntry.getNameFromExfatFileNameEntries set.listedNames :=
    determineName_of_nameEntries rfl rfl
  rw [withDataStream_fields _ stream ⟨rfl, rfl, rfl⟩]
  constructor
  · rintro ⟨found, hfound, hsame⟩
    obtain ⟨_, hlength, rfl⟩ := getNameFromExfatFileNameEntries_eq_ok_iff.mp hfound
    obtain ⟨named, named', hnamed, hnamed', hname, _⟩ := hsame.name
    rw [determineName_of_name rfl] at hnamed
    injection hnamed with hnamed
    rw [hlisted, getNameFromExfatFileNameEntries_eq_ok_iff] at hnamed'
    obtain ⟨_, hlength', rfl⟩ := hnamed'
    rw [← hnamed] at hname
    exact ⟨⟨hsame.dataStartCluster, hsame.dataSize, hsame.validDataSize⟩,
      hlength, hlength', Option.some.inj hname⟩
  · rintro ⟨hstream, hnames⟩
    obtain ⟨named, hnamed, hname, hunicode⟩ : ∃ named, set.listedEntry.determineName = .ok named ∧
        named.name = some (exfatNameOf set.listedNames) ∧ named.isUnicode = true := by
      rw [hlisted]
      exact ⟨_, getNameFromExfatFileNameEntries_eq_ok_iff.mpr ⟨rfl, hnames.listedLength, rfl⟩, rfl,
        rfl⟩
    refine ⟨_, getNameFromExfatFileNameEntries_eq_ok_iff.mpr ⟨rfl, hnames.length, rfl⟩, rfl, rfl,
      rfl, rfl, rfl, rfl, rfl, rfl, rfl, rfl, rfl, rfl, rfl, hstream.dataStartCluster,
      hstream.dataSize, hstream.validDataSize, _, named, determineName_of_name rfl, hnamed, ?_,
      hunicode.symm⟩
    rw [hname, hnames.name]

end Agrees

/-- In an exFAT directory of sets that is read, the lookup by the identifier of an
entry gives the same file exactly when it finds name entries for the same name,
and a data stream with the same values or none where these are zero. -/
theorem exfat_lookupAgrees_iff {fs : FileSystem} {image : List UInt8} {c : Nat}
    {directory : Directory} {sets : List ExfatEntrySet}
    (hformat : fs.ioHandle.fileSystemFormat = .exfat) (hgeometry : BlockGeometry fs.ioHandle)
    (hread : readDirectory fs image c = .ok directory)
    (hcontent : (DirectorySource.chain c).Content fs image (sets.flatMap ExfatEntrySet.slots)) :
    List.Forall₂ (fun set entry => LookupAgrees fs image entry ↔
      ∃ names stream, FindsEntries fs image (toUint64 set.fileEntry.1) names stream ∧
        HasSameStream stream set.dataStream.2 ∧ HasSameExfatName names set.listedNames)
      sets directory.fileEntries := by
  obtain ⟨slots, hslots⟩ : ∃ slots, (DirectorySource.chain c).IsReadFrom fs image slots directory :=
    DirectorySource.isReadFrom_of_read hgeometry nofun hread
  obtain rfl := hslots.content.unique hcontent
  obtain ⟨s, hs, rfl⟩ := hslots.processed
  rw [hformat] at hs
  have hfiles : s.directory.fileEntries = sets.map ExfatEntrySet.listedEntry :=
    ExfatEntrySet.processEntries_sets hs
  rw [hfiles, List.forall₂_map_right_iff, List.forall₂_same]
  intro set hset
  have hslot : set.fileEntry ∈ sets.flatMap ExfatEntrySet.slots :=
    List.mem_flatMap.mpr ⟨set, hset, List.mem_cons_self⟩
  have hentry : HasEntry fs image (toOff64 (toUint64 set.fileEntry.1))
      (readExfatFileEntry set.fileEntry.2) := by
    apply hslots.hasEntry hslot
    rw [hformat]
    exact readData_exfat_fileEntry set.isFileEntry
  have hidentifier : set.listedEntry.identifier = toUint64 set.fileEntry.1 := rfl
  unfold LookupAgrees
  rw [hidentifier]
  simp only [lookup_fileEntry_iff hentry rfl]
  constructor
  · rintro ⟨found, ⟨names, stream, hfinds, hfound⟩, hsame⟩
    exact ⟨names, stream, hfinds, (set.found_same_iff names stream).mp ⟨found, hfound, hsame⟩⟩
  · rintro ⟨names, stream, hfinds, hsame⟩
    obtain ⟨found, hfound, hsame⟩ := (set.found_same_iff names stream).mpr hsame
    exact ⟨found, ⟨names, stream, hfinds, hfound⟩, hsame⟩

/-- Where the slot behind a file entry has the data stream, in the region that is
computed from the identifier, the lookup finds no name entries. -/
theorem FindsEntries.names_eq_nil {fs : FileSystem} {image : List UInt8} {identifier : Nat}
    {names : List (List UInt8)} {stream : Option DirectoryEntry}
    (h : FindsEntries fs image identifier names stream) {entry : DirectoryEntry}
    (hread : HasEntry fs image (toOff64 ((identifier : Int) + directoryEntrySize)) entry)
    (hdata : entry.entryType = .exfatDataStream)
    (hlt : toOff64 ((identifier : Int) + directoryEntrySize) <
      identifierEnd fs.ioHandle identifier) : names = [] := by
  unfold FindsEntries at h
  generalize toOff64 ((identifier : Int) + directoryEntrySize) = offset at h hread hlt
  generalize hstream : false = hasStream at h
  unfold HasEntry at hread
  have hother {entry' : DirectoryEntry} (hread' : HasEntry fs image offset entry') :
      entry'.entryType = .exfatDataStream := by
    cases hread.symm.trans hread'
    exact hdata
  have hleaves {hasStream : Bool} : ¬ LeavesRegionOn fs image hasStream offset
      (identifierEnd fs.ioHandle identifier) := by
    rintro (hle | ⟨_, entry', hread', hne, _⟩)
    · exact not_lt.mpr hle hlt
    · exact hne (hother hread')
  cases h with
  | ended => rfl
  | name _ hread' hname _ =>
    rw [hother hread'] at hname
    cases hname
  | dataStream => rfl
  | last hleaves' => exact absurd hleaves' hleaves
  | linked hleaves' => exact absurd hleaves' hleaves

/-- A set of the file A, without attributes and with no data. -/
def plainSet : ExfatEntrySet where
  fileEntry := dotNamedSet.fileEntry
  dataStream := dotNamedSet.dataStream
  names := [(576, 0xc1 :: 0 :: 0x41 :: List.replicate 29 0)]
  isFileEntry := rfl
  isDataStream := rfl
  areNames := by decide

/-- The volume with the directory of this one file. -/
def plainImage : List UInt8 :=
  List.replicate 512 0 ++ plainSet.slots.flatMap Prod.snd ++ List.replicate 416 0

theorem content_plainImage :
    (DirectorySource.chain 2).Content exfatFileSystem plainImage
      ([plainSet].flatMap ExfatEntrySet.slots) := by
  have hfile : readAt plainImage 512 32 = some plainSet.fileEntry.2 := by decide +kernel
  have hstream : readAt plainImage 544 32 = some plainSet.dataStream.2 := by decide +kernel
  have hname : readAt plainImage 576 32 = some (0xc1 :: 0 :: 0x41 :: List.replicate 29 0) := by
    decide +kernel
  have hend : readAt plainImage 608 32 = some DirectoryEntry.empty := by decide +kernel
  have hrange :
      RangeContent plainImage .exfat 16 512 ([plainSet].flatMap ExfatEntrySet.slots) true :=
    .slot hfile rfl (.slot hstream rfl (.slot hname rfl (.terminated hend rfl)))
  have hcount : slotsPerCluster exfatFileSystem.ioHandle = 16 := by decide
  have hoffset : clusterOffset exfatFileSystem.ioHandle 2 = 512 := by decide
  refine ⟨0xfffffff0, [2], rfl, .terminated (by decide) (by decide) ?_⟩
  rw [hcount, hoffset]
  exact hrange

theorem read_plainImage : ∃ directory, readDirectory exfatFileSystem plainImage 2 = .ok directory :=
  exists_eq_ok_of_isOk (by decide +kernel)

/-- The directory of the one file. -/
theorem exfat_lookupAgrees_iff_plain :
    ∃ directory, readDirectory exfatFileSystem plainImage 2 = .ok directory ∧
      List.Forall₂ (fun set entry => LookupAgrees exfatFileSystem plainImage entry ↔
        ∃ names stream,
          FindsEntries exfatFileSystem plainImage (toUint64 set.fileEntry.1) names stream ∧
          HasSameStream stream set.dataStream.2 ∧ HasSameExfatName names set.listedNames)
        [plainSet] directory.fileEntries := by
  obtain ⟨directory, hread⟩ := read_plainImage
  exact ⟨directory, hread,
    exfat_lookupAgrees_iff rfl ⟨9, by decide, by decide, rfl⟩ hread content_plainImage⟩

/-- The lookup reads the data stream, and cannot read the name entry behind it. -/
theorem exfat_lookup_fails :
    ∃ directory, readDirectory exfatFileSystem plainImage 2 = .ok directory ∧
      (DirectorySource.chain 2).Content exfatFileSystem plainImage
        ([plainSet].flatMap ExfatEntrySet.slots) ∧
      directory.fileEntries.map (·.identifier) = [512] ∧
      ∀ found, ¬ LookupReturns exfatFileSystem plainImage 512 (.ok (some found)) := by
  have hidentifiers : (readDirectory exfatFileSystem plainImage 2).map (fun directory =>
      directory.fileEntries.map (·.identifier)) = .ok [512] := by
    decide +kernel
  obtain ⟨directory, hread, hdirectory⟩ := map_eq_ok_iff.mp hidentifiers
  refine ⟨directory, hread, content_plainImage, hdirectory, ?_⟩
  have hfile : HasEntry exfatFileSystem plainImage (toOff64 (512 : Nat))
      (readExfatFileEntry plainSet.fileEntry.2) := by
    unfold HasEntry
    decide +kernel
  have hstream : HasEntry exfatFileSystem plainImage
      (toOff64 (((512 : Nat) : Int) + directoryEntrySize))
      (readExfatDataStream plainSet.dataStream.2) := by
    unfold HasEntry
    decide +kernel
  intro found hreturns
  obtain ⟨names, stream, hfinds, hfound⟩ := (lookup_fileEntry_iff hfile rfl).mp hreturns
  have hnil : names = [] := hfinds.names_eq_nil hstream rfl (by decide)
  obtain ⟨_, ⟨hpos, _⟩, _⟩ := getNameFromExfatFileNameEntries_eq_ok_iff.mp hfound
  rw [hnil] at hpos
  cases hpos

end FsFat
