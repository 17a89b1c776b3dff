import FsFat.EntryIdentifiers
import FsFat.LongNameRuns

/-!
The lookup of a short name against the listing of its directory. The listing
has the long name that began behind the short name before it in the directory;
the lookup collects the long name entries that are before it on the disk, and
where these are left goes on with the first slot of a cluster that the reversed
allocation table gives for the number that was computed from the identifier.
-/

namespace FsFat

open Bytes DirectoryEntry DirectoryReadState EntryLookup

/-! ### What the walk back collects -/

section Walk

variable (fs : FileSystem) (image : List UInt8)

/-- The slot at the offset ends the walk: a terminator or another short name. -/
def EndsWalkBack (offset : Int) : Prop :=
  readFileIOHandle image offset fs.ioHandle.fileSystemFormat = .ok none ∨
    ∃ entry, HasEntry fs image offset entry ∧ entry.entryType = .shortName

/-- The walk leaves the region: behind its end, or at a slot of another kind. -/
def LeavesRegionBack (offset endOffset : Int) : Prop :=
  endOffset < offset ∨ offset ≤ endOffset ∧ ∃ entry, HasEntry fs image offset entry ∧
    entry.entryType ≠ .vfatLongName ∧ entry.entryType ≠ .shortName

/-- The name data of the long name entries from an offset in the region of a
cluster on backward, with sequence numbers that count on from the last one, up
to a slot that ends the walk or a link to no further cluster. -/
inductive CollectsBack : Nat → Int → Int → Nat → List (List UInt8) → Prop where
  | ended {c number : Nat} {offset endOffset : Int} : offset ≤ endOffset →
      EndsWalkBack fs image offset → CollectsBack c offset endOffset number []
  | longName {c number : Nat} {offset endOffset : Int} {entry : DirectoryEntry}
      {names : List (List UInt8)} : offset ≤ endOffset →
      HasEntry fs image offset entry → entry.entryType = .vfatLongName →
      (number = 0 ∨ number + 1 = entry.vfatSequenceNumber &&& 0x1f) →
      CollectsBack c (offset - directoryEntrySize) endOffset (entry.vfatSequenceNumber &&& 0x1f)
        names →
      CollectsBack c offset endOffset number (names ++ [entry.nameData])
  | last {c c' number : Nat} {offset endOffset : Int} :
      LeavesRegionBack fs image offset endOffset → LinksBack fs c c' → c' ≤ 2 →
      CollectsBack c offset endOffset number []
  | linked {c c' number : Nat} {offset endOffset : Int} {names : List (List UInt8)} :
      LeavesRegionBack fs image offset endOffset → LinksBack fs c c' → 2 < c' →
      CollectsBack c' (clusterOffset fs.ioHandle c') (clusterEnd fs.ioHandle c') number names →
      CollectsBack c offset endOffset number names

/-- The same from a region on, that is not entered for the first clusters. -/
def CollectsFrom (c : Nat) (offset endOffset : Int) (number : Nat) (names : List (List UInt8)) :
    Prop :=
  c ≤ 2 ∧ names = [] ∨ 2 < c ∧ CollectsBack fs image c offset endOffset number names

/-- The name data of the long name entries that the lookup finds for the short
name with an identifier. -/
def FindsLongName (identifier : Nat) (names : List (List UInt8)) : Prop :=
  CollectsFrom fs image (identifierCluster fs.ioHandle identifier)
    (toOff64 ((identifier : Int) - directoryEntrySize)) (identifierEnd fs.ioHandle identifier) 0
    names

end Walk

/-- The entry with the long name of these name entries, if there are any. -/
def withLongName (entry : DirectoryEntry) (names : List (List UInt8)) :
    Except Error DirectoryEntry :=
  if names = [] then .ok entry else entry.getNameFromVfatLongFileNameEntries names

section Collects

variable {fs : FileSystem} {image : List UInt8} {w : EntryLookup}

/-- A sequence number is not zero, also without the flag of the first entry. -/
theorem sequenceNumber_ne_zero {offset : Int} {entry : DirectoryEntry}
    (hread : HasEntry fs image offset entry) (htype : entry.entryType = .vfatLongName) :
    entry.vfatSequenceNumber &&& 0x1f ≠ 0 := by
  unfold HasEntry readFileIOHandle at hread
  split at hread
  · cases hread
  next data _ =>
  have hdata := entryType_of_readData hread
  rw [htype] at hdata
  rw [readData, ← hdata] at hread
  injection hread with hread
  injection hread with hread
  have hnumber : entry.vfatSequenceNumber = byteAt data 0 := by rw [← hread, readVfatLongName]
  have hrange : (0x01 ≤ byteAt data 0 ∧ byteAt data 0 ≤ 0x13) ∨
      (0x41 ≤ byteAt data 0 ∧ byteAt data 0 ≤ 0x54) := by
    by_contra hnot
    unfold entryTypeOf at hdata
    rw [if_neg hnot] at hdata
    split_ifs at hdata
    split at hdata <;> cases hdata
  have hmod : byteAt data 0 &&& 0x1f = byteAt data 0 % 2 ^ 5 := Nat.and_two_pow_sub_one_eq_mod _ 5
  rw [hnumber, hmod]
  omega

/-- In the loops for a short name. The last sequence number is zero before the
first long name entry, and a result of zero is that of a slot behind which the
next one is read. -/
structure WalksBack (w : EntryLookup) : Prop where
  entryType : w.currentFileEntry.entryType = .shortName
  number : w.lastVfatSequenceNumber = 0 ↔ w.nameEntries = []
  result : w.result = true ∨ w.inRegion = true ∧ w.clusterOffset ≤ w.clusterEndOffset

theorem finishShortName_eq (h : w.lastVfatSequenceNumber = 0 ↔ w.nameEntries = []) :
    w.finishShortName = (withLongName w.currentFileEntry w.nameEntries).map some := by
  unfold finishShortName withLongName
  by_cases hnames : w.nameEntries = []
  · rw [if_neg (not_not_intro (h.mpr hnames)), if_pos hnames]
    rfl
  · rw [if_pos (mt h.mp hnames), if_neg hnames]

/-- What the next state of the walk has of the state before it. -/
structure Continued (w w' : EntryLookup) (c : Nat) (offset endOffset : Int) (number : Nat)
    (names : List (List UInt8)) : Prop where
  walksBack : WalksBack w'
  currentFileEntry : w'.currentFileEntry = w.currentFileEntry
  clusterNumber : w'.clusterNumber = c
  clusterOffset : w'.clusterOffset = offset
  clusterEndOffset : w'.clusterEndOffset = endOffset
  number : w'.lastVfatSequenceNumber = number
  nameEntries : w'.nameEntries = names

/-- The walk in a region at a slot that ends it. -/
theorem step_of_endsWalkBack (hw : WalksBack w) (hin : w.inRegion = true)
    (hle : w.clusterOffset ≤ w.clusterEndOffset) (h : EndsWalkBack fs image w.clusterOffset) :
    step fs image w = .done ((withLongName w.currentFileEntry w.nameEntries).map some) := by
  rw [← finishShortName_eq hw.number, step_of_shortName hw.entryType]
  rcases h with hnone | ⟨entry, hread, htype⟩
  · simp only [vfatStep, hin, if_true, hle, hnone]
    rfl
  · unfold HasEntry at hread
    simp only [vfatStep, hin, if_true, hle, hread, takeVfatEntry, htype, reduceCtorEq, if_false]
    rfl

/-- At a long name entry whose sequence number counts on. -/
theorem step_of_longName (hw : WalksBack w) (hin : w.inRegion = true)
    (hle : w.clusterOffset ≤ w.clusterEndOffset) {entry : DirectoryEntry}
    (hread : HasEntry fs image w.clusterOffset entry) (hlong : entry.entryType = .vfatLongName)
    (hcounts : w.lastVfatSequenceNumber = 0 ∨
      w.lastVfatSequenceNumber + 1 = entry.vfatSequenceNumber &&& 0x1f) :
    ∃ w', step fs image w = .next w' ∧ w'.inRegion = true ∧
      Continued w w' w.clusterNumber (w.clusterOffset - directoryEntrySize) w.clusterEndOffset
        (entry.vfatSequenceNumber &&& 0x1f) (entry.nameData :: w.nameEntries) := by
  have hnumber := sequenceNumber_ne_zero hread hlong
  unfold HasEntry at hread
  have hnot : ¬ (w.lastVfatSequenceNumber ≠ 0 ∧
      w.lastVfatSequenceNumber + 1 ≠ entry.vfatSequenceNumber &&& 0x1f) := by
    rintro ⟨h0, h1⟩
    exact hcounts.elim h0 h1
  rw [step_of_shortName hw.entryType]
  simp only [vfatStep, hin, if_true, hle, hread, takeVfatEntry, hlong, hnot, if_false]
  refine ⟨_, rfl, rfl, ⟨hw.entryType, ?_, .inr ⟨rfl, ?_⟩⟩, rfl, rfl, rfl, rfl, rfl, rfl⟩
  · exact iff_of_false hnumber (List.cons_ne_nil _ _)
  · simp only [directoryEntrySize]
    omega

/-- Where the walk leaves a region for a cluster of the reversed table. -/
theorem step_of_leavesRegionBack (hw : WalksBack w) (hin : w.inRegion = true)
    (hleaves : LeavesRegionBack fs image w.clusterOffset w.clusterEndOffset) {c : Nat}
    (hlinks : LinksBack fs w.clusterNumber c) :
    ∃ w', step fs image w = .next w' ∧ w'.inRegion = false ∧
      Continued w w' c (FsFat.clusterOffset fs.ioHandle c) (clusterEnd fs.ioHandle c)
        w.lastVfatSequenceNumber w.nameEntries := by
  obtain ⟨reversed, hreversed, hget⟩ := hlinks
  rw [step_of_shortName hw.entryType]
  rcases hleaves with hlt | ⟨hle, entry, hread, hlong, hshort⟩
  · have hresult : w.result = true :=
      hw.result.resolve_right fun ⟨_, hle⟩ => not_lt.mpr hle hlt
    simp only [vfatStep, hin, if_true, not_le.mpr hlt, if_false, afterVfatRegion, hresult,
      hreversed, hget, toCluster]
    exact ⟨_, rfl, rfl, ⟨hw.entryType, hw.number, .inl rfl⟩, rfl, rfl, rfl, rfl, rfl, rfl⟩
  · unfold HasEntry at hread
    simp only [vfatStep, hin, if_true, hle, hread, takeVfatEntry, hlong, if_false, afterVfatRegion,
      hshort, ne_eq, not_false_eq_true, decide_true, hreversed, hget, toCluster]
    exact ⟨_, rfl, rfl, ⟨hw.entryType, hw.number, .inl rfl⟩, rfl, rfl, rfl, rfl, rfl, rfl⟩

/-- What the walk can do in a region. -/
theorem vfatRegion_cases (fs : FileSystem) (image : List UInt8) (hw : WalksBack w)
    (hin : w.inRegion = true) :
    (w.clusterOffset ≤ w.clusterEndOffset ∧ EndsWalkBack fs image w.clusterOffset) ∨
      (w.clusterOffset ≤ w.clusterEndOffset ∧ ∃ entry, HasEntry fs image w.clusterOffset entry ∧
        entry.entryType = .vfatLongName ∧ (w.lastVfatSequenceNumber = 0 ∨
          w.lastVfatSequenceNumber + 1 = entry.vfatSequenceNumber &&& 0x1f)) ∨
      (LeavesRegionBack fs image w.clusterOffset w.clusterEndOffset ∧
        ∃ c, LinksBack fs w.clusterNumber c) ∨
      ∃ e, step fs image w = .done (.error e) := by
  have hafter (w₁ : EntryLookup) (hcluster : w₁.clusterNumber = w.clusterNumber)
      (hresult : w₁.result = true) :
      (∃ c, LinksBack fs w.clusterNumber c) ∨ ∃ e, afterVfatRegion fs w₁ = .done (.error e) := by
    simp only [afterVfatRegion, hresult, if_true, hcluster]
    cases hreversed : fs.reversedAllocationTable with
    | none => exact .inr ⟨_, rfl⟩
    | some reversed =>
      cases hget : reversed.getClusterNumberByIndex (toInt32 w.clusterNumber) with
      | error e =>
        simp only [hget]
        exact .inr ⟨_, rfl⟩
      | ok c => exact .inl ⟨c, reversed, hreversed, hget⟩
  have hstep : step fs image w = vfatStep fs image w := step_of_shortName hw.entryType
  by_cases hle : w.clusterOffset ≤ w.clusterEndOffset
  swap
  · have hresult : w.result = true := hw.result.resolve_right fun h => hle h.2
    simp only [vfatStep, hin, if_true, hle, if_false] at hstep
    rcases hafter w rfl hresult with hlinks | ⟨e, he⟩
    · exact .inr (.inr (.inl ⟨.inl (not_le.mp hle), hlinks⟩))
    · exact .inr (.inr (.inr ⟨e, hstep.trans he⟩))
  simp only [vfatStep, hin, if_true, hle] at hstep
  cases hread : readFileIOHandle image w.clusterOffset fs.ioHandle.fileSystemFormat with
  | error e =>
    rw [hread] at hstep
    exact .inr (.inr (.inr ⟨e, hstep⟩))
  | ok read =>
    cases read with
    | none => exact .inl ⟨hle, .inl hread⟩
    | some entry =>
      rw [hread] at hstep
      dsimp only at hstep
      by_cases hlong : entry.entryType = .vfatLongName
      · by_cases hnumber : w.lastVfatSequenceNumber ≠ 0 ∧
            w.lastVfatSequenceNumber + 1 ≠ entry.vfatSequenceNumber &&& 0x1f
        · simp only [takeVfatEntry, hlong, if_true, hnumber, ne_eq, not_false_eq_true,
            and_self] at hstep
          exact .inr (.inr (.inr ⟨_, hstep⟩))
        · refine .inr (.inl ⟨hle, entry, hread, hlong, ?_⟩)
          rwa [not_and_or, not_not, not_not] at hnumber
      · by_cases hshort : entry.entryType = .shortName
        · exact .inl ⟨hle, .inr ⟨entry, hread, hshort⟩⟩
        · simp only [takeVfatEntry, hlong, if_false] at hstep
          rcases hafter { w with result := entry.entryType ≠ .shortName } rfl
            (decide_eq_true hshort) with hlinks | ⟨e, he⟩
          · exact .inr (.inr (.inl ⟨.inr ⟨hle, entry, hread, hlong, hshort⟩, hlinks⟩))
          · exact .inr (.inr (.inr ⟨e, hstep.trans he⟩))

/-- Before a region: the walk enters it, or it is over. -/
theorem step_of_not_inRegion (fs : FileSystem) (image : List UInt8) (hw : WalksBack w)
    (hin : w.inRegion = false) :
    (2 < w.clusterNumber ∧ step fs image w = .next { w with inRegion := true } ∧
        WalksBack { w with inRegion := true }) ∨
      (w.clusterNumber ≤ 2 ∧ step fs image w =
        .done ((withLongName w.currentFileEntry w.nameEntries).map some)) := by
  have hresult : w.result = true := hw.result.resolve_right fun ⟨h, _⟩ => by
    rw [hin] at h
    cases h
  rw [← finishShortName_eq hw.number, step_of_shortName hw.entryType]
  rcases Nat.lt_or_ge 2 w.clusterNumber with h2 | h2
  · refine .inl ⟨h2, ?_, hw.entryType, hw.number, .inl hresult⟩
    simp only [vfatStep, hin, Bool.false_eq_true, if_false, gt_iff_lt, h2, if_true]
  · refine .inr ⟨h2, ?_⟩
    simp only [vfatStep, hin, Bool.false_eq_true, if_false, gt_iff_lt, not_lt.mpr h2]

/-- Slots from which name entries can be collected are walked through. -/
theorem returns_of_collectsBack {c number : Nat} {offset endOffset : Int}
    {names : List (List UInt8)} (h : CollectsBack fs image c offset endOffset number names)
    {w : EntryLookup} (hw : WalksBack w) (hin : w.inRegion = true) (hcluster : w.clusterNumber = c)
    (hoffset : w.clusterOffset = offset) (hend : w.clusterEndOffset = endOffset)
    (hnumber : w.lastVfatSequenceNumber = number) :
    Loop.Returns (step fs image) w
      ((withLongName w.currentFileEntry (names ++ w.nameEntries)).map some) := by
  induction h generalizing w with
  | ended hle hends =>
    subst hoffset hend
    exact .of_done (step_of_endsWalkBack hw hin hle hends)
  | longName hle hread hlong hcounts _ ih =>
    subst hcluster hoffset hend hnumber
    obtain ⟨w', hstep, hin', hnext⟩ := step_of_longName hw hin hle hread hlong hcounts
    have hreturns := ih hnext.walksBack hin' hnext.clusterNumber hnext.clusterOffset
      hnext.clusterEndOffset hnext.number
    rw [hnext.currentFileEntry, hnext.nameEntries] at hreturns
    rw [List.append_assoc, List.singleton_append]
    exact .of_next hstep hreturns
  | last hleaves hlinks h2 =>
    subst hcluster hoffset hend hnumber
    obtain ⟨w', hstep, hin', hnext⟩ := step_of_leavesRegionBack hw hin hleaves hlinks
    have hdone := (step_of_not_inRegion fs image hnext.walksBack
      hin').resolve_left fun ⟨hlt, _⟩ => by
        rw [hnext.clusterNumber] at hlt
        omega
    rw [hnext.currentFileEntry, hnext.nameEntries] at hdone
    exact .of_next hstep (.of_done hdone.2)
  | linked hleaves hlinks h2 _ ih =>
    subst hcluster hoffset hend hnumber
    obtain ⟨w', hstep, hin', hnext⟩ := step_of_leavesRegionBack hw hin hleaves hlinks
    obtain ⟨_, henter, hw₁⟩ := (step_of_not_inRegion fs image hnext.walksBack
      hin').resolve_right fun ⟨hle, _⟩ => by
        rw [hnext.clusterNumber] at hle
        omega
    have hreturns := ih hw₁ rfl hnext.clusterNumber hnext.clusterOffset hnext.clusterEndOffset
      hnext.number
    rw [← hnext.currentFileEntry, ← hnext.nameEntries]
    exact .of_next hstep (.of_next henter hreturns)

/-- The name entries that a state collects from where it is. -/
def CollectsAt (fs : FileSystem) (image : List UInt8) (w : EntryLookup)
    (names : List (List UInt8)) : Prop :=
  if w.inRegion then CollectsBack fs image w.clusterNumber w.clusterOffset w.clusterEndOffset
    w.lastVfatSequenceNumber names
  else CollectsFrom fs image w.clusterNumber w.clusterOffset w.clusterEndOffset
    w.lastVfatSequenceNumber names

/-- A walk that gives an entry has collected the name entries of its long name. -/
theorem collectsAt_of_returns {found : DirectoryEntry}
    (h : Loop.Returns (step fs image) w (.ok (some found))) : WalksBack w →
    ∃ names, CollectsAt fs image w names ∧
      withLongName w.currentFileEntry (names ++ w.nameEntries) = .ok found := by
  have hfound {entry : DirectoryEntry} {names : List (List UInt8)}
      (h : (withLongName entry names).map some = .ok (some found)) :
      withLongName entry names = .ok found := by
    obtain ⟨entry', hentry, heq⟩ := map_eq_ok_iff.mp h
    rw [hentry, Option.some.inj heq]
  refine h.induction (P := fun w => WalksBack w → ∃ names, CollectsAt fs image w names ∧
    withLongName w.currentFileEntry (names ++ w.nameEntries) = .ok found) ?_ ?_
  · intro w hstep hw
    unfold CollectsAt
    cases hin : w.inRegion with
    | false =>
      rcases step_of_not_inRegion fs image hw hin with
        ⟨_, henter, _⟩ | ⟨h2, hdone⟩
      · cases henter.symm.trans hstep
      · injection hdone.symm.trans hstep with hresult
        exact ⟨[], .inl ⟨h2, rfl⟩, hfound hresult⟩
    | true =>
      rcases vfatRegion_cases fs image hw hin with
        ⟨hle, hends⟩ | ⟨hle, entry, hread, hlong, hcounts⟩ | ⟨hleaves, c, hlinks⟩ | ⟨e, he⟩
      · injection (step_of_endsWalkBack hw hin hle hends).symm.trans hstep with hresult
        exact ⟨[], .ended hle hends, hfound hresult⟩
      · obtain ⟨w', hnext, _⟩ := step_of_longName hw hin hle hread hlong hcounts
        cases hnext.symm.trans hstep
      · obtain ⟨w', hnext, _⟩ := step_of_leavesRegionBack hw hin hleaves hlinks
        cases hnext.symm.trans hstep
      · injection he.symm.trans hstep with hresult
        cases hresult
  · intro w w' hstep ih hw
    unfold CollectsAt at ih ⊢
    cases hin : w.inRegion with
    | false =>
      rcases step_of_not_inRegion fs image hw hin with
        ⟨h2, henter, hw₁⟩ | ⟨_, hdone⟩
      · injection henter.symm.trans hstep with heq
        subst heq
        obtain ⟨names, hcollects, hnames⟩ := ih hw₁
        exact ⟨names, .inr ⟨h2, hcollects⟩, hnames⟩
      · cases hdone.symm.trans hstep
    | true =>
      rcases vfatRegion_cases fs image hw hin with
        ⟨hle, hends⟩ | ⟨hle, entry, hread, hlong, hcounts⟩ | ⟨hleaves, c, hlinks⟩ | ⟨e, he⟩
      · cases (step_of_endsWalkBack hw hin hle hends).symm.trans hstep
      · obtain ⟨w₁, hstep₁, hin', hnext⟩ := step_of_longName hw hin hle hread hlong hcounts
        injection hstep₁.symm.trans hstep with heq
        subst heq
        obtain ⟨names, hcollects, hnames⟩ := ih hnext.walksBack
        rw [hin', if_pos rfl, hnext.clusterNumber, hnext.clusterOffset, hnext.clusterEndOffset,
          hnext.number] at hcollects
        rw [hnext.currentFileEntry, hnext.nameEntries] at hnames
        refine ⟨names ++ [entry.nameData], .longName hle hread hlong hcounts hcollects, ?_⟩
        rwa [List.append_assoc, List.singleton_append]
      · obtain ⟨w₁, hstep₁, hin', hnext⟩ := step_of_leavesRegionBack hw hin hleaves hlinks
        injection hstep₁.symm.trans hstep with heq
        subst heq
        obtain ⟨names, hcollects, hnames⟩ := ih hnext.walksBack
        rw [hin', hnext.clusterNumber, hnext.clusterOffset, hnext.clusterEndOffset,
          hnext.number] at hcollects
        rw [hnext.currentFileEntry, hnext.nameEntries] at hnames
        rcases hcollects with ⟨h2, rfl⟩ | ⟨h2, hcollects⟩
        · exact ⟨[], .last hleaves hlinks h2, hnames⟩
        · exact ⟨names, .linked hleaves hlinks h2 hcollects, hnames⟩
      · cases he.symm.trans hstep

/-- The state before the loops for a short name. -/
theorem ofEntry_shortName (ioHandle : IoHandle) (identifier : Nat) {entry : DirectoryEntry}
    (htype : entry.entryType = .shortName) :
    ∃ w, ofEntry ioHandle identifier entry = w ∧ w.inRegion = false ∧
      Continued w w (identifierCluster ioHandle identifier)
        (toOff64 ((identifier : Int) - directoryEntrySize)) (identifierEnd ioHandle identifier) 0
        [] ∧
      w.currentFileEntry = { entry with identifier } := by
  have hw : WalksBack (ofEntry ioHandle identifier entry) :=
    ⟨htype, iff_of_true rfl rfl, .inl rfl⟩
  refine ⟨_, rfl, decide_eq_false (not_not_intro htype), ⟨hw, rfl, ?_, ?_, ?_, rfl, rfl⟩, rfl⟩
  · dsimp only [ofEntry]
  · exact if_pos htype
  · dsimp only [ofEntry]

/-- From a slot of another kind the walk goes on with a cluster of the reversed table. -/
theorem CollectsBack.of_other {c number : Nat} {offset endOffset : Int}
    {names : List (List UInt8)} (h : CollectsBack fs image c offset endOffset number names)
    {entry : DirectoryEntry} (hread : HasEntry fs image offset entry)
    (hlong : entry.entryType ≠ .vfatLongName) (hshort : entry.entryType ≠ .shortName) :
    ∃ c', LinksBack fs c c' ∧ CollectsFrom fs image c' (FsFat.clusterOffset fs.ioHandle c')
      (clusterEnd fs.ioHandle c') number names := by
  unfold HasEntry at hread
  cases h with
  | ended _ hends =>
    rcases hends with hnone | ⟨entry', hread', htype⟩
    · cases hread.symm.trans hnone
    · cases hread.symm.trans hread'
      exact absurd htype hshort
  | longName _ hread' htype _ _ =>
    cases hread.symm.trans hread'
    exact absurd htype hlong
  | last _ hlinks h2 => exact ⟨_, hlinks, .inl ⟨h2, rfl⟩⟩
  | linked _ hlinks h2 hcollects => exact ⟨_, hlinks, .inr ⟨h2, hcollects⟩⟩

/-- The lookup of a short name gives the entry with the long name of the entries
that it finds, whatever the image and the tables are. -/
theorem lookup_shortName_iff {identifier : Nat} {entry found : DirectoryEntry}
    (hread : HasEntry fs image (toOff64 identifier) entry) (htype : entry.entryType = .shortName) :
    LookupReturns fs image identifier (.ok (some found)) ↔
      ∃ names, FindsLongName fs image identifier names ∧
        withLongName { entry with identifier } names = .ok found := by
  have hstart := start_of_hasEntry hread (.inl htype)
  obtain ⟨w, hofEntry, hin, hw, hentry⟩ := ofEntry_shortName fs.ioHandle identifier htype
  rw [hofEntry] at hstart
  unfold FindsLongName
  rw [← hentry, ← hw.clusterNumber, ← hw.clusterOffset, ← hw.clusterEndOffset]
  constructor
  · intro hreturns
    obtain ⟨names, hcollects, hnames⟩ :=
      collectsAt_of_returns (returns_of_start hreturns hstart) hw.walksBack
    unfold CollectsAt at hcollects
    rw [hin, hw.number] at hcollects
    rw [hw.nameEntries, List.append_nil] at hnames
    exact ⟨names, hcollects, hnames⟩
  · rintro ⟨names, hfinds, hnames⟩
    refine .inr ⟨w, hstart, ?_⟩
    have hresult : (withLongName w.currentFileEntry (names ++ w.nameEntries)).map some =
        .ok (some found) := by
      rw [hw.nameEntries, List.append_nil, hnames]
      rfl
    rw [← hresult]
    rcases step_of_not_inRegion fs image hw.walksBack hin with ⟨h2, henter, hw₁⟩ | ⟨h2, hdone⟩
    · obtain ⟨_, hcollects⟩ := hfinds.resolve_left fun ⟨hle, _⟩ => not_lt.mpr hle h2
      exact .of_next henter (returns_of_collectsBack hcollects hw₁ rfl rfl rfl rfl hw.number)
    · obtain ⟨_, rfl⟩ := hfinds.resolve_right fun ⟨hlt, _⟩ => not_lt.mpr h2 hlt
      exact .of_done hdone

end Collects

/-! ### The long names of the listing -/

section Listing

variable {format : FileSystemFormat}

/-- The array after the entry of a slot, for a range: there are no special names. -/
def nameEntriesAfterByRange (slot : Slot) (names : Option (List (List UInt8))) :
    Option (List (List UInt8)) :=
  if IsListedByRange slot then none
  else if ¬ IsLongNameEntry slot then names
  else if sequenceNumberOf slot &&& 0x40 ≠ 0 then some [longNameData slot]
  else names.map (· ++ [longNameData slot])

/-- Reading a range lists its short names with the long names before them. -/
theorem listsShortNames_processEntryByRange (hformat : format ≠ .exfat) :
    ListsShortNames processEntryByRange format IsListedByRange nameEntriesAfterByRange where
  names := by
    intro slot entry s s' hlength hentry hallocated h
    rcases readData_eq_some hformat hentry with ⟨htype, rfl⟩ | ⟨htype, rfl⟩ | ⟨_, rfl⟩
    · rw [processEntryByRange_shortName] at h
      unfold nameEntriesAfterByRange
      split at h
      · next hlabel =>
        have hnot : ¬ IsListedByRange slot := fun hlisted => hlisted.2 hlabel
        have hlong : ¬ IsLongNameEntry slot := by
          intro hlong
          cases htype.symm.trans hlong
        rw [if_neg hnot, if_pos hlong]
        exact setSpecialEntry_nameEntries (.inr (.inr h))
      · next hlabel =>
        rw [if_pos ⟨htype, hlabel⟩]
        exact (addShortName_fileEntry h).1
    · have hnot : ¬ IsListedByRange slot := fun hlisted => by
        rw [hlisted.1] at htype
        cases htype
      have hlong : IsLongNameEntry slot := htype
      rw [nameEntriesAfterByRange, if_neg hnot, if_neg (not_not_intro hlong)]
      exact addVfatLongName_nameEntries h
    · exact absurd rfl hallocated
  listed := by
    rintro slot entry s s' - hentry h ⟨htype, hlabel⟩
    rcases readData_eq_some hformat hentry with ⟨_, rfl⟩ | ⟨htype', _⟩ | ⟨htype', _⟩
    · rw [processEntryByRange_shortName, if_neg hlabel] at h
      exact (addShortName_fileEntry h).2
    · rw [htype] at htype'
      cases htype'
    · rw [htype] at htype'
      cases htype'
  kept := by
    intro slot entry s s' _ hentry hallocated h hnot
    rcases readData_eq_some hformat hentry with ⟨htype, rfl⟩ | ⟨_, rfl⟩ | ⟨_, rfl⟩
    · have hlabel : byteAt slot.2 11 = fileAttributeFlagVolumeLabel := by
        by_contra hlabel
        exact hnot ⟨htype, hlabel⟩
      rw [processEntryByRange_shortName, if_pos hlabel] at h
      exact (setSpecialEntry_listing (.inr (.inr h))).1
    · have hdirectory : s'.directory = s.directory := addVfatLongName_directory h
      rw [hdirectory]
    · exact absurd rfl hallocated
  deleted := by
    intro slot entry hentry hun
    have htype : entryTypeOf slot.2 .fat16 = .unallocated :=
      not_not.mp fun hne => (isAllocated_iff hformat hentry).mp hne hun
    have hnot : ¬ IsListedByRange slot := fun hlisted => by
      rw [hlisted.1] at htype
      cases htype
    have hlong : ¬ IsLongNameEntry slot := by
      intro hlong
      cases htype.symm.trans hlong
    exact ⟨hnot, fun names => by rw [nameEntriesAfterByRange, if_neg hnot, if_pos hlong]⟩

end Listing

/-- The array after the entry of a slot, for the function that reads the directory. -/
def DirectorySource.nameEntriesAfter : DirectorySource → Slot →
    Option (List (List UInt8)) → Option (List (List UInt8))
  | .chain _ => FsFat.nameEntriesAfter
  | .rootRange _ => nameEntriesAfterByRange

/-- The array that an entry behind these slots of the directory finds. -/
def DirectorySource.nameEntriesBehind (source : DirectorySource) (before : List Slot) :
    Option (List (List UInt8)) :=
  before.foldl (fun names slot => source.nameEntriesAfter slot names) none

theorem DirectorySource.listsShortNames (source : DirectorySource) {format : FileSystemFormat}
    (hformat : format ≠ .exfat) :
    ListsShortNames source.process format (source.Lists format) source.nameEntriesAfter := by
  cases source with
  | chain c =>
    rw [lists_chain hformat]
    exact listsShortNames_processEntry hformat
  | rootRange size =>
    rw [lists_rootRange hformat]
    exact listsShortNames_processEntryByRange hformat

/-- A slot that is listed has a short name. -/
theorem DirectorySource.Lists.entryType {source : DirectorySource} {format : FileSystemFormat}
    {slot : Slot} (h : source.Lists format slot) (hformat : format ≠ .exfat) :
    entryTypeOf slot.2 .fat16 = .shortName := by
  cases source with
  | chain c =>
    rw [lists_chain hformat] at h
    exact h.1
  | rootRange size =>
    rw [lists_rootRange hformat] at h
    exact h.1

/-! ### The entry of the lookup and the entry of the listing -/

/-- Two entries have the same identifier, attributes, times, start cluster and
sizes, and the same name when it is determined. -/
structure SameDirectoryEntry (found entry : DirectoryEntry) : Prop where
  identifier : found.identifier = entry.identifier
  fileAttributeFlags : found.fileAttributeFlags = entry.fileAttributeFlags
  creationDate : found.creationDate = entry.creationDate
  creationTime : found.creationTime = entry.creationTime
  creationTimeFraction : found.creationTimeFraction = entry.creationTimeFraction
  creationTimeUtcOffset : found.creationTimeUtcOffset = entry.creationTimeUtcOffset
  accessDate : found.accessDate = entry.accessDate
  accessTime : found.accessTime = entry.accessTime
  accessTimeUtcOffset : found.accessTimeUtcOffset = entry.accessTimeUtcOffset
  modificationDate : found.modificationDate = entry.modificationDate
  modificationTime : found.modificationTime = entry.modificationTime
  modificationTimeFraction : found.modificationTimeFraction = entry.modificationTimeFraction
  modificationTimeUtcOffset : found.modificationTimeUtcOffset = entry.modificationTimeUtcOffset
  dataStartCluster : found.dataStartCluster = entry.dataStartCluster
  dataSize : found.dataSize = entry.dataSize
  validDataSize : found.validDataSize = entry.validDataSize
  name : ∃ named named', found.determineName = .ok named ∧ entry.determineName = .ok named' ∧
    named.name = named'.name ∧ named.isUnicode = named'.isUnicode

/-- The lookup by the identifier of a listed entry gives the same file. -/
def LookupAgrees (fs : FileSystem) (image : List UInt8) (entry : DirectoryEntry) : Prop :=
  ∃ found, LookupReturns fs image entry.identifier (.ok (some found)) ∧ SameDirectoryEntry found entry

/-- The name that is put together from long name entries. -/
def longNameOf (names : List (List UInt8)) : List UInt8 :=
  upToZeroUnit ((names.reverse.map (·.take 26)).flatten ++ [0, 0])

/-- Long name entries give the long name of the listing, or there are none when
it has none. -/
def HasSameLongName (names : List (List UInt8)) : Option (List (List UInt8)) → Prop
  | none => names = []
  | some listed => (0 < names.length ∧ names.length ≤ 20) ∧ longNameOf names = longNameOf listed

section Agrees

variable {slot : Slot} {names : List (List UInt8)} {listed : Option (List (List UInt8))}
  {entry found : DirectoryEntry}

theorem getNameFromVfatLongFileNameEntries_eq_ok_iff :
    entry.getNameFromVfatLongFileNameEntries names = .ok found ↔
      entry.name = none ∧ (0 < names.length ∧ names.length ≤ 20) ∧
        found = { entry with
          name := some (longNameOf names)
          nameSize := (longNameOf names).length
          isUnicode := true } := by
  unfold getNameFromVfatLongFileNameEntries longNameOf
  rw [setNameFromSegments_eq_ok_iff, List.length_map, List.length_reverse]

/-- An entry whose name was determined keeps it. -/
theorem determineName_of_name {name : List UInt8} (h : entry.name = some name) :
    entry.determineName = .ok entry := by
  unfold determineName
  rw [h]
  rfl

/-- The name of a short name entry is not Unicode. -/
theorem determineName_shortName (hname : entry.name = none) (hnames : entry.nameEntries = none)
    (htype : entry.entryType = .shortName) :
    ∃ named, entry.determineName = .ok named ∧ named.isUnicode = false := by
  unfold determineName
  rw [hname]
  simp only [Option.isNone_none, if_true, getName, hname, Option.isSome_none, Bool.false_eq_true,
    if_false, hnames, htype]
  exact ⟨_, rfl, rfl⟩

theorem fileEntryOf_identifier (h : fileEntryOf slot listed = .ok entry) :
    entry.identifier = toUint64 slot.1 := by
  cases listed with
  | none =>
    injection h with h
    rw [← h]
    rfl
  | some segments =>
    obtain ⟨_, _, rfl⟩ := getNameFromVfatLongFileNameEntries_eq_ok_iff.mp h
    rfl

/-- The entry with the long name of some entries is the same file as the listed
one exactly when these are for the same long name. -/
theorem withLongName_same_iff (names : List (List UInt8))
    (hlisted : fileEntryOf slot listed = .ok entry) :
    (∃ found, withLongName (withIdentifier (readShortName slot.2) slot.1) names = .ok found ∧
      SameDirectoryEntry found entry) ↔ HasSameLongName names listed := by
  have hbase : ∃ named, (withIdentifier (readShortName slot.2) slot.1).determineName = .ok named ∧
      named.isUnicode = false := determineName_shortName rfl rfl rfl
  obtain ⟨short, hshort, hunicode⟩ := hbase
  unfold withLongName
  cases listed with
  | none =>
    injection hlisted with hentry
    subst hentry
    constructor
    · rintro ⟨found, hfound, hsame⟩
      by_contra hne
      have hne' : names ≠ [] := hne
      rw [if_neg hne', getNameFromVfatLongFileNameEntries_eq_ok_iff] at hfound
      obtain ⟨_, _, rfl⟩ := hfound
      obtain ⟨named, named', hnamed, hnamed', _, hflag⟩ := hsame.name
      rw [determineName_of_name rfl] at hnamed
      rw [hshort] at hnamed'
      injection hnamed with hnamed
      injection hnamed' with hnamed'
      rw [← hnamed, ← hnamed', hunicode] at hflag
      cases hflag
    · intro hnames
      have hnames' : names = [] := hnames
      rw [if_pos hnames']
      exact ⟨_, rfl, rfl, rfl, rfl, rfl, rfl, rfl, rfl, rfl, rfl, rfl, rfl, rfl, rfl, rfl, rfl, rfl,
        short, short, hshort, hshort, rfl, rfl⟩
  | some segments =>
    obtain ⟨_, _, rfl⟩ := getNameFromVfatLongFileNameEntries_eq_ok_iff.mp hlisted
    constructor
    · rintro ⟨found, hfound, hsame⟩
      obtain ⟨named, named', hnamed, hnamed', hname, hflag⟩ := hsame.name
      rw [determineName_of_name rfl] at hnamed'
      injection hnamed' with hnamed'
      subst hnamed'
      split at hfound
      · injection hfound with hfound
        rw [← hfound, hshort] at hnamed
        injection hnamed with hnamed
        rw [← hnamed, hunicode] at hflag
        cases hflag
      · obtain ⟨_, hlength, rfl⟩ := getNameFromVfatLongFileNameEntries_eq_ok_iff.mp hfound
        rw [determineName_of_name rfl] at hnamed
        injection hnamed with hnamed
        rw [← hnamed] at hname
        exact ⟨hlength, Option.some.inj hname⟩
    · rintro ⟨hlength, hname⟩
      have hne : names ≠ [] := List.ne_nil_of_length_pos hlength.1
      rw [if_neg hne]
      refine ⟨_, getNameFromVfatLongFileNameEntries_eq_ok_iff.mpr ⟨rfl, hlength, rfl⟩, rfl, rfl, rfl,
        rfl, rfl, rfl, rfl, rfl, rfl, rfl, rfl, rfl, rfl, rfl, rfl, rfl, _, _,
        determineName_of_name rfl, determineName_of_name rfl, congrArg some hname, rfl⟩

end Agrees

/-- The entry of a slot of a directory is read at the identifier of the slot. -/
theorem DirectorySource.IsReadFrom.hasEntry {fs : FileSystem} {image : List UInt8}
    {source : DirectorySource} {slots : List Slot} {directory : Directory}
    (h : source.IsReadFrom fs image slots directory) {slot : Slot} (hslot : slot ∈ slots)
    {entry : DirectoryEntry}
    (hentry : readData slot.2 fs.ioHandle.fileSystemFormat = .ok (some entry)) :
    HasEntry fs image (toOff64 (toUint64 slot.1)) entry := by
  obtain ⟨h0, hmax⟩ := h.inVolume.bounds slot hslot
  obtain ⟨hdata, _⟩ := h.entries slot hslot
  rw [toUint64_offset h0 hmax, toOff64_of_nonneg h0 hmax]
  unfold HasEntry readFileIOHandle
  rw [hdata]
  exact hentry

/-- In a directory that is read, the lookup by the identifier of an entry gives
the same file exactly when the long name entries that it finds on the disk are
for the long name that the listing has from the slots before the entry. -/
theorem lookupAgrees_iff {fs : FileSystem} {image : List UInt8} {source : DirectorySource}
    {directory : Directory} (hformat : fs.ioHandle.fileSystemFormat ≠ .exfat)
    (hgeometry : BlockGeometry fs.ioHandle)
    (hrange : ∀ size, source = .rootRange size → 0 ≤ fs.ioHandle.rootDirectoryOffset ∧
      fs.ioHandle.rootDirectoryOffset + size + directoryEntrySize ≤ int64Max)
    (hread : source.read fs image = .ok directory) :
    ∃ slots, source.Content fs image slots ∧
      ∀ entry ∈ directory.fileEntries, ∃ before slot rest, slots = before ++ slot :: rest ∧
        source.Lists fs.ioHandle.fileSystemFormat slot ∧ (entry.identifier : Int) = slot.1 ∧
        (LookupAgrees fs image entry ↔
          ∃ names, FindsLongName fs image entry.identifier names ∧
            HasSameLongName names (source.nameEntriesBehind before)) := by
  obtain ⟨slots, hslots⟩ := DirectorySource.isReadFrom_of_read hgeometry hrange hread
  obtain ⟨s, hs, rfl⟩ := hslots.processed
  have hlists := source.listsShortNames hformat
  obtain ⟨_, added, hadded, hall⟩ := hlists.run hslots.length_and_isEntry hs
  refine ⟨slots, hslots.content, fun entry hentry => ?_⟩
  have hmem : entry ∈ added := by
    rw [hadded] at hentry
    exact hentry
  obtain ⟨before, slot, rest, hsplit, hlisted, hfile⟩ := hall entry hmem
  have hslot : slot ∈ slots := by
    rw [hsplit]
    exact List.mem_append_right _ List.mem_cons_self
  obtain ⟨h0, hmax⟩ := hslots.inVolume.bounds slot hslot
  have hidentifier := fileEntryOf_identifier hfile
  have hoffset : (entry.identifier : Int) = slot.1 := by
    rw [hidentifier]
    exact toUint64_offset h0 hmax
  have hentry : HasEntry fs image (toOff64 entry.identifier) (readShortName slot.2) := by
    rw [hidentifier]
    apply hslots.hasEntry hslot
    exact readData_shortName hformat
      ⟨(hslots.length_and_isEntry slot hslot).1, hlisted.entryType hformat⟩
  have hsame := fun names => withLongName_same_iff names hfile
  refine ⟨before, slot, rest, hsplit, hlisted, hoffset, ?_⟩
  unfold LookupAgrees
  simp only [lookup_shortName_iff hentry rfl]
  constructor
  · rintro ⟨found, ⟨names, hfinds, hfound⟩, hfile'⟩
    rw [hidentifier] at hfound
    exact ⟨names, hfinds, (hsame names).mp ⟨found, hfound, hfile'⟩⟩
  · rintro ⟨names, hfinds, hnames⟩
    obtain ⟨found, hfound, hfile'⟩ := (hsame names).mpr hnames
    refine ⟨found, ⟨names, hfinds, ?_⟩, hfile'⟩
    rw [hidentifier]
    exact hfound

/-- The directory with the deleted slot between a long name and its short name. -/
theorem lookupAgrees_iff_deletedGap :
    ∃ directory, (DirectorySource.chain 2).read vfatFileSystem deletedGapImage = .ok directory ∧
      ∃ slots, (DirectorySource.chain 2).Content vfatFileSystem deletedGapImage slots ∧
        ∀ entry ∈ directory.fileEntries, ∃ before slot rest, slots = before ++ slot :: rest ∧
          (DirectorySource.chain 2).Lists .fat16 slot ∧ (entry.identifier : Int) = slot.1 ∧
          (LookupAgrees vfatFileSystem deletedGapImage entry ↔
            ∃ names, FindsLongName vfatFileSystem deletedGapImage entry.identifier names ∧
              HasSameLongName names ((DirectorySource.chain 2).nameEntriesBehind before)) := by
  obtain ⟨directory, hread⟩ : ∃ directory,
      readDirectory vfatFileSystem deletedGapImage 2 = .ok directory :=
    exists_eq_ok_of_isOk (by decide +kernel)
  exact ⟨directory, hread,
    lookupAgrees_iff (by decide) ⟨9, by decide, by decide, rfl⟩ nofun hread⟩

/-- The volume with a long name, a deleted slot and the short name in its root
directory. -/
def gapRootImage : List UInt8 :=
  rootFileImage.take 1024 ++ longNameSlot.2 ++ deletedSlot.2 ++ shortNameSlot.2 ++
    List.replicate 416 0

def gapRootEnvironment : OpenEnvironment :=
  { rootFileEnvironment with file := { rootFileEnvironment.file with data := gapRootImage } }

theorem open_gapRoot :
    ∃ opened fs root,
      Volume.openFileIOHandle gapRootEnvironment accessFlagRead .create = (.ok (), opened) ∧
      opened.fileSystem = some ⟨some fs, some root⟩ ∧
      fs.ioHandle = rootFileBootRecord.ioHandle 1536 ∧
      fs.reversedAllocationTable.map (·.clusterNumbers) = some [5, 0, 0, 0, 0, 0] ∧
      (DirectorySource.rootRange 512).read fs gapRootImage = .ok root ∧
      root.fileEntries.map (fun entry => (entry.identifier, entry.isUnicode, entry.name)) =
        [(1088, true, some [0x42, 0, 0, 0])] := by
  have hresult : (Volume.openFileIOHandle gapRootEnvironment accessFlagRead .create).1 =
      .ok () := by decide +kernel
  have hopen : Volume.openFileIOHandle gapRootEnvironment accessFlagRead .create = (.ok (),
      (Volume.openFileIOHandle gapRootEnvironment accessFlagRead .create).2) := by
    rw [← hresult]
  have hlisted : (((Volume.openFileIOHandle gapRootEnvironment accessFlagRead
      .create).2.fileSystem.bind (·.rootDirectory)).map fun root =>
        root.fileEntries.map fun entry => (entry.identifier, entry.isUnicode, entry.name)) =
      some [(1088, true, some [0x42, 0, 0, 0])] := by
    decide +kernel
  have htables : (((Volume.openFileIOHandle gapRootEnvironment accessFlagRead
      .create).2.fileSystem.bind (·.tables)).bind fun fs =>
        fs.reversedAllocationTable.map (·.clusterNumbers)) = some [5, 0, 0, 0, 0, 0] := by
    decide +kernel
  have hrecord : BootRecord.readFileIOHandle gapRootEnvironment.file.data 0 =
      .ok rootFileBootRecord := by decide +kernel
  obtain ⟨bootRecord, fs, root, hopens, _, hfs⟩ := Volume.openFileIOHandle_ok hopen
  obtain ⟨rfl⟩ : rootFileBootRecord = bootRecord :=
    Except.ok.inj (hrecord.symm.trans hopens.record)
  rw [hfs] at hlisted htables
  obtain ⟨size, hsize, hread⟩ := hopens.tables
  injection hsize with hsize
  have hio : fs.ioHandle = rootFileBootRecord.ioHandle 1536 := by
    rw [(readAllocationTable_eq_ok hread).1, ← hsize]
  have hoffset : fs.ioHandle.rootDirectoryOffset = 1024 := by
    rw [hio]
    simp [BootRecord.ioHandle, rootFileBootRecord]
  refine ⟨_, fs, root, hopen, hfs, hio, ?_, ?_, ?_⟩
  · exact htables
  · have hroot := hopens.rootDirectory
    rw [DirectorySource.read, hoffset]
    exact hroot
  · simpa only [Option.bind_some, Option.map_some, Option.some.injEq] using hlisted

/-- The listing has the long name, but the walk back leaves its region at the
deleted slot, and the cluster that it goes on with is none. -/
theorem lookup_loses_long_name :
    ∃ opened fs root,
      Volume.openFileIOHandle gapRootEnvironment accessFlagRead .create = (.ok (), opened) ∧
      opened.fileSystem = some ⟨some fs, some root⟩ ∧
      (DirectorySource.rootRange 512).read fs gapRootImage = .ok root ∧
      ∃ entry ∈ root.fileEntries, entry.name = some [0x42, 0, 0, 0] ∧
        ¬ LookupAgrees fs gapRootImage entry := by
  obtain ⟨opened, fs, root, hopen, hfs, hio, hreversed, hread, hlisted⟩ := open_gapRoot
  refine ⟨opened, fs, root, hopen, hfs, hread, ?_⟩
  obtain ⟨entry, hentry, hfields⟩ := List.mem_map.mp (hlisted ▸ List.mem_cons_self :
    (1088, true, some [0x42, 0, 0, 0]) ∈ root.fileEntries.map
      fun entry => (entry.identifier, entry.isUnicode, entry.name))
  obtain ⟨hidentifier, hunicode, hname⟩ : entry.identifier = 1088 ∧ entry.isUnicode = true ∧
      entry.name = some [0x42, 0, 0, 0] := by
    simpa only [Prod.mk.injEq] using hfields
  refine ⟨entry, hentry, hname, ?_⟩
  have hread : HasEntry fs gapRootImage (toOff64 entry.identifier)
      (readShortName shortNameSlot.2) := by
    rw [hidentifier]
    unfold HasEntry
    rw [hio]
    decide +kernel
  have hdeleted : HasEntry fs gapRootImage 1056 { create with entryType := .unallocated } := by
    unfold HasEntry
    rw [hio]
    decide +kernel
  rintro ⟨found, hreturns, hsame⟩
  obtain ⟨names, hfinds, hfound⟩ := (lookup_shortName_iff hread rfl).mp hreturns
  have hregion : identifierCluster fs.ioHandle 1088 = 4 ∧
      toOff64 ((1088 : Nat) - directoryEntrySize : Int) = 1056 := by
    rw [hio]
    decide
  unfold FindsLongName at hfinds
  rw [hidentifier, hregion.1, hregion.2] at hfinds
  obtain ⟨_, hcollects⟩ := hfinds.resolve_left fun ⟨hle, _⟩ => by omega
  obtain ⟨c, ⟨reversed, hsome, hget⟩, hfrom⟩ :=
    hcollects.of_other hdeleted DirectoryEntryType.noConfusion DirectoryEntryType.noConfusion
  rw [hsome] at hreversed
  have hzero : c = 0 := by
    have hnumbers : reversed.clusterNumbers = [5, 0, 0, 0, 0, 0] := Option.some.inj hreversed
    have hlink : reversed.getClusterNumberByIndex (toInt32 4) = .ok 0 := by
      simp only [AllocationTable.getClusterNumberByIndex, AllocationTable.numberOfClusterNumbers,
        hnumbers]
      rfl
    exact Except.ok.inj (hget.symm.trans hlink)
  obtain ⟨_, rfl⟩ := hfrom.resolve_right fun ⟨hlt, _⟩ => by omega
  injection hfound with hfound
  obtain ⟨short, hshort, hnotUnicode⟩ : ∃ named, found.determineName = .ok named ∧
      named.isUnicode = false := by
    rw [← hfound]
    exact determineName_shortName rfl rfl rfl
  obtain ⟨named, named', hnamed, hnamed', _, hflag⟩ := hsame.name
  rw [determineName_of_name hname] at hnamed'
  injection hnamed' with hnamed'
  rw [hshort] at hnamed
  injection hnamed with hnamed
  rw [← hnamed, ← hnamed', hnotUnicode, hunicode] at hflag
  cases hflag

end FsFat
