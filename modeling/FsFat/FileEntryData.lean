import FsFat.DataStreamBuild
import FsFat.FileEntry

/-!
The data of a file entry: the functions of `libfsfat_file_entry.c` that read and
seek, and those that report the extents. The first of them that is called gets
the data stream, and a call that cannot get it leaves this to the next one.
-/

namespace FsFat

def fileAttributeFlagDevice : Nat := 0x40

/-- What is read later of `libfsfat_internal_file_entry_t`: the segments of the
cluster block stream, and the array with the data extents. -/
structure FileEntryData where
  clusterBlockStream : Option (List Extent)
  dataExtents : List Extent
  deriving DecidableEq

namespace FileEntryData

/-- The values of `libfsfat_file_entry_initialize`. -/
def create : FileEntryData := ⟨none, []⟩

end FileEntryData

namespace FileEntry

/-- `libfsfat_file_entry_get_size`. -/
def getSize (fileEntry : FileEntry) : Nat := fileEntry.dataSize

/-- The data stream is got where it is not set. -/
def ensureDataStream (containers : Containers) (fs : FileSystem) (fileEntry : FileEntry)
    (data : FileEntryData) : FileEntryData × Except Error (List Extent) :=
  match data.clusterBlockStream with
  | some segments => (data, .ok segments)
  | none =>
    let (extents, result) :=
      buildDataStream containers fs fileEntry.clusterNumber fileEntry.dataSize
    (⟨result.toOption, data.dataExtents ++ extents⟩, result)

/-- The attribute flags with which a file entry is not read. -/
def IsUnsupported (fileEntry : FileEntry) : Prop :=
  fileEntry.fileAttributeFlags &&& fileAttributeFlagDevice ≠ 0 ∧
    fileEntry.fileAttributeFlags &&& fileAttributeFlagDirectory ≠ 0 ∧
    fileEntry.fileAttributeFlags &&& fileAttributeFlagVolumeLabel ≠ 0

instance (fileEntry : FileEntry) : Decidable fileEntry.IsUnsupported :=
  inferInstanceAs (Decidable (_ ∧ _ ∧ _))

/-- A function of the data stream, of a file entry that is read. -/
def withDataStream {α : Type} (use : List Extent → Except Error α) (containers : Containers)
    (fs : FileSystem) (fileEntry : FileEntry) (data : FileEntryData) :
    FileEntryData × Except Error α :=
  if fileEntry.IsUnsupported then (data, .error .unsupportedValue)
  else
    let (data, result) := ensureDataStream containers fs fileEntry data
    (data, result.bind use)

section Functions

variable {α : Type} (containers : Containers) (fs : FileSystem) (fileEntry : FileEntry)
  (data : FileEntryData)

/-- `libfsfat_file_entry_read_buffer`, with `libfdata_stream_read_buffer`. -/
def readBuffer (streamReadBuffer : List Extent → Except Error α) :
    FileEntryData × Except Error α :=
  withDataStream streamReadBuffer containers fs fileEntry data

/-- `libfsfat_file_entry_read_buffer_at_offset`, with
`libfdata_stream_read_buffer_at_offset`. -/
def readBufferAtOffset (streamReadBufferAtOffset : List Extent → Except Error α) :
    FileEntryData × Except Error α :=
  withDataStream streamReadBufferAtOffset containers fs fileEntry data

/-- `libfsfat_file_entry_seek_offset`, with `libfdata_stream_seek_offset`. -/
def seekOffset (streamSeekOffset : List Extent → Except Error α) :
    FileEntryData × Except Error α :=
  withDataStream streamSeekOffset containers fs fileEntry data

/-- `libfsfat_file_entry_get_offset`, with `libfdata_stream_get_offset`. -/
def getOffset (streamGetOffset : List Extent → Except Error α) :
    FileEntryData × Except Error α :=
  withDataStream streamGetOffset containers fs fileEntry data

/-- `libfsfat_file_entry_get_number_of_extents`. The flags are not checked. -/
def getNumberOfExtents : FileEntryData × Except Error Nat :=
  let (data, result) := ensureDataStream containers fs fileEntry data
  (data, result.map fun _ => data.dataExtents.length)

/-- `libfsfat_file_entry_get_extent_by_index`. The flags are not checked. -/
def getExtentByIndex (extentIndex : Int) : FileEntryData × Except Error Extent :=
  let (data, result) := ensureDataStream containers fs fileEntry data
  (data, result.bind fun _ =>
    if extentIndex < 0 then .error .getFailed
    else
      match data.dataExtents[extentIndex.toNat]? with
      | none => .error .getFailed
      | some extent => .ok extent)

end Functions

end FileEntry

/-! ### Sequences of calls -/

/-- A call of one of these functions, with what `libfdata` does for it. -/
inductive DataCall where
  | readBuffer (streamReadBuffer : List Extent → Except Error (List UInt8))
  | readBufferAtOffset (streamReadBufferAtOffset : List Extent → Except Error (List UInt8))
  | seekOffset (streamSeekOffset : List Extent → Except Error Int)
  | getOffset (streamGetOffset : List Extent → Except Error Int)
  | getNumberOfExtents
  | getExtentByIndex (extentIndex : Int)

/-- The data of the file entry after a call. -/
def DataCall.after (call : DataCall) (containers : Containers) (fs : FileSystem)
    (fileEntry : FileEntry) (data : FileEntryData) : FileEntryData :=
  match call with
  | readBuffer f => (fileEntry.readBuffer containers fs data f).1
  | readBufferAtOffset f => (fileEntry.readBufferAtOffset containers fs data f).1
  | seekOffset f => (fileEntry.seekOffset containers fs data f).1
  | getOffset f => (fileEntry.getOffset containers fs data f).1
  | getNumberOfExtents => (fileEntry.getNumberOfExtents containers fs data).1
  | getExtentByIndex i => (fileEntry.getExtentByIndex containers fs data i).1

/-- The data of a file entry after calls, each with its own containers. -/
def afterCalls (fs : FileSystem) (fileEntry : FileEntry) (calls : List (Containers × DataCall)) :
    FileEntryData :=
  calls.foldl (fun data call => call.2.after call.1 fs fileEntry data) .create

section Calls

variable {fs : FileSystem} {fileEntry : FileEntry} {data : FileEntryData}
  {containers : Containers}

/-- A call either leaves the data alone or gets the data stream first. -/
theorem DataCall.after_cases (call : DataCall) (containers : Containers) (fs : FileSystem)
    (fileEntry : FileEntry) (data : FileEntryData) :
    call.after containers fs fileEntry data = data ∨
      call.after containers fs fileEntry data =
        (fileEntry.ensureDataStream containers fs data).1 := by
  have hwith : ∀ {α : Type} (use : List Extent → Except Error α),
      (fileEntry.withDataStream use containers fs data).1 = data ∨
        (fileEntry.withDataStream use containers fs data).1 =
          (fileEntry.ensureDataStream containers fs data).1 := by
    intro α use
    unfold FileEntry.withDataStream
    split
    · exact .inl rfl
    · exact .inr rfl
  cases call with
  | readBuffer f => exact hwith f
  | readBufferAtOffset f => exact hwith f
  | seekOffset f => exact hwith f
  | getOffset f => exact hwith f
  | getNumberOfExtents => exact .inr rfl
  | getExtentByIndex i => exact .inr rfl

/-- What calls keep if getting the data stream keeps it. -/
theorem afterCalls_invariant {I : FileEntryData → Prop} {P : Containers → Prop}
    (hcreate : I .create)
    (hensure : ∀ containers data, P containers → I data →
      I (fileEntry.ensureDataStream containers fs data).1)
    {calls : List (Containers × DataCall)} (hcalls : ∀ call ∈ calls, P call.1) :
    I (afterCalls fs fileEntry calls) := by
  induction calls using List.reverseRecOn with
  | nil => exact hcreate
  | append_singleton calls call ih =>
    have hdata := ih fun call hcall => hcalls call (List.mem_append_left _ hcall)
    have hcall := hcalls call (List.mem_append_right _ List.mem_cons_self)
    rw [afterCalls, List.foldl_append, List.foldl_cons, List.foldl_nil, ← afterCalls]
    rcases call.2.after_cases call.1 fs fileEntry (afterCalls fs fileEntry calls) with heq | heq
    · rw [heq]
      exact hdata
    · rw [heq]
      exact hensure _ _ hcall hdata

/-- The extents in the array are those of one successful call, or there are none
yet. -/
structure HasOwnExtents (fs : FileSystem) (fileEntry : FileEntry) (data : FileEntryData) :
    Prop where
  none : data.clusterBlockStream = none → data.dataExtents = []
  some : ∀ segments, data.clusterBlockStream = some segments →
    getDataStream fs fileEntry.clusterNumber fileEntry.dataSize = .ok ⟨data.dataExtents, segments⟩

theorem ensureDataStream_hasOwnExtents (hblock : fs.ioHandle.clusterBlockSize < 2 ^ 64)
    (hkeeps : KeepsExtents containers fs fileEntry.clusterNumber fileEntry.dataSize)
    (h : HasOwnExtents fs fileEntry data) :
    HasOwnExtents fs fileEntry (fileEntry.ensureDataStream containers fs data).1 ∧
      (∀ e, (fileEntry.ensureDataStream containers fs data).2 = .error e →
        (fileEntry.ensureDataStream containers fs data).1 = data) ∧
      ∀ segments, (fileEntry.ensureDataStream containers fs data).2 = .ok segments →
        (fileEntry.ensureDataStream containers fs data).1.clusterBlockStream = some segments := by
  unfold FileEntry.ensureDataStream
  split
  · next segments hsome =>
    refine ⟨h, fun e he => (by cases he), fun segments' hok => ?_⟩
    injection hok with hok
    rw [hsome, hok]
  · next hnone =>
    have hnil := h.none hnone
    cases hbuild : buildDataStream containers fs fileEntry.clusterNumber fileEntry.dataSize with
    | mk extents result =>
      cases result with
      | error e =>
        have hextents := buildDataStream_error hblock hkeeps hbuild
        have heq : (⟨(Except.error e : Except Error (List Extent)).toOption,
            data.dataExtents ++ extents⟩ : FileEntryData) = data := by
          rw [hextents, List.append_nil]
          exact congrArg (FileEntryData.mk · data.dataExtents) hnone.symm
        simp only [heq]
        exact ⟨h, fun _ _ => trivial, fun segments hok => (by cases hok)⟩
      | ok segments =>
        have hstream := buildDataStream_ok hbuild
        refine ⟨⟨fun hstill => (by cases hstill), fun segments' hsome => ?_⟩,
          fun e he => (by cases he), fun segments' hok => ?_⟩
        · injection hsome with hsome
          simp only [hnil, List.nil_append]
          rw [hstream, hsome]
        · injection hok with hok
          exact congrArg some hok

/-- After any calls that meet the condition: the extents are those of one
successful call or there are none yet, a call that fails to get the data stream
leaves the data alone, and the extents that are reported are those of the data
stream. -/
theorem afterCalls_hasOwnExtents (hblock : fs.ioHandle.clusterBlockSize < 2 ^ 64)
    {calls : List (Containers × DataCall)}
    (hcalls : ∀ call ∈ calls,
      KeepsExtents call.1 fs fileEntry.clusterNumber fileEntry.dataSize) :
    HasOwnExtents fs fileEntry (afterCalls fs fileEntry calls) ∧
      ∀ containers, KeepsExtents containers fs fileEntry.clusterNumber fileEntry.dataSize →
        (∀ e, (fileEntry.ensureDataStream containers fs
              (afterCalls fs fileEntry calls)).2 = .error e →
            (fileEntry.ensureDataStream containers fs (afterCalls fs fileEntry calls)).1 =
              afterCalls fs fileEntry calls) ∧
        (∀ n, (fileEntry.getNumberOfExtents containers fs
              (afterCalls fs fileEntry calls)).2 = .ok n →
            ∃ stream, getDataStream fs fileEntry.clusterNumber fileEntry.dataSize = .ok stream ∧
              n = stream.extents.length) ∧
        ∀ i extent, (fileEntry.getExtentByIndex containers fs
              (afterCalls fs fileEntry calls) i).2 = .ok extent →
            ∃ stream, getDataStream fs fileEntry.clusterNumber fileEntry.dataSize = .ok stream ∧
              0 ≤ i ∧ stream.extents[i.toNat]? = some extent := by
  have hdata : HasOwnExtents fs fileEntry (afterCalls fs fileEntry calls) :=
    afterCalls_invariant (I := HasOwnExtents fs fileEntry) ⟨fun _ => rfl, fun _ h => by cases h⟩
      (fun _ _ hkeeps h => (ensureDataStream_hasOwnExtents hblock hkeeps h).1) hcalls
  refine ⟨hdata, fun containers hkeeps => ?_⟩
  obtain ⟨hafter, herror, hok⟩ := ensureDataStream_hasOwnExtents hblock hkeeps hdata
  refine ⟨herror, fun n hn => ?_, fun i extent hextent => ?_⟩
  · unfold FileEntry.getNumberOfExtents at hn
    cases hresult : (fileEntry.ensureDataStream containers fs (afterCalls fs fileEntry calls)).2 with
    | error e => simp [hresult, Except.map] at hn
    | ok segments =>
      simp only [hresult, Except.map] at hn
      injection hn with hn
      exact ⟨_, hafter.some segments (hok segments hresult), hn.symm⟩
  · unfold FileEntry.getExtentByIndex at hextent
    cases hresult : (fileEntry.ensureDataStream containers fs (afterCalls fs fileEntry calls)).2 with
    | error e => simp [hresult, Except.bind] at hextent
    | ok segments =>
      simp only [hresult, Except.bind] at hextent
      split at hextent
      · cases hextent
      · next hindex =>
        split at hextent
        · cases hextent
        · next found hfound =>
          injection hextent with hextent
          exact ⟨_, hafter.some segments (hok segments hresult), by omega, hextent ▸ hfound⟩

end Calls

section LeftoverExtents

/-- A file of 700 bytes that starts in cluster 2. -/
def gapFile : FileEntry :=
  .create 0x220 (some { DirectoryEntry.create with dataStartCluster := 2, dataSize := 700 }) none

/-- Containers that take extents, but no segment. -/
def noSegments : Containers := ⟨fun _ => true, fun _ => false⟩

/-- Containers that take no extent. -/
def noExtents : Containers := ⟨fun _ => false, fun _ => true⟩

theorem keepsExtents_noExtents (fs : FileSystem) (clusterNumber size : Nat) :
    KeepsExtents noExtents fs clusterNumber size := by
  rintro last _ ⟨hextent, _⟩
  cases hextent

theorem keepsExtents_gap : KeepsExtents .unlimited gapFileSystem 2 700 := by
  rintro last hstarts _
  obtain rfl : 0xfff0 = last := Except.ok.inj hstarts.lastClusterNumber
  have hfirst : TakesClusters gapFileSystem 0xfff0 700 2 ([] ++ [2]) 4 :=
    .next .start ⟨by decide, by decide, by decide +kernel, by decide, rfl⟩
  have hsecond : TakesClusters gapFileSystem 0xfff0 700 2 ([2] ++ [4]) 0xffff :=
    hfirst.next ⟨by decide, by decide +kernel, by decide +kernel, by decide +kernel, rfl⟩
  exact ⟨⟨_, _, hsecond, fun h => absurd h.2.1 (by decide)⟩, fun _ _ _ _ => ⟨rfl, rfl⟩⟩

/-- A call whose array takes nothing, and then one that succeeds. -/
theorem afterCalls_hasOwnExtents_gap :
    HasOwnExtents gapFileSystem gapFile
      (afterCalls gapFileSystem gapFile
        [(noExtents, .getNumberOfExtents), (.unlimited, .getNumberOfExtents)]) :=
  (afterCalls_hasOwnExtents (by decide) fun call hcall => by
    rcases List.mem_cons.mp hcall with rfl | hcall
    · exact keepsExtents_noExtents _ _ _
    · rw [List.mem_singleton.mp hcall]
      exact keepsExtents_gap).1

/-- A file system in which cluster 2 links to cluster 4 and cluster 4 to 2. -/
def gapCycleFileSystem : FileSystem :=
  { gapFileSystem with
    allocationTable := ⟨[0xfff8, 0xffff, 4, 0, 2], by decide, by decide, by decide⟩ }

/-- The first run is appended before the cycle is found. And a segment that
cannot be appended leaves its extent in the array, where the extents of the next
call follow it. -/
theorem failed_call_leaves_extents :
    (buildDataStream .unlimited gapCycleFileSystem 2 2000 =
      ([⟨1024, 512⟩], .error .clusterNumberAlreadyExists)) ∧
    (afterCalls gapFileSystem gapFile
        [(noSegments, .getNumberOfExtents), (.unlimited, .getNumberOfExtents)] =
      ⟨some [⟨1024, 512⟩, ⟨2048, 188⟩], [⟨1024, 512⟩, ⟨1024, 512⟩, ⟨2048, 512⟩]⟩) ∧
    ¬ HasOwnExtents gapFileSystem gapFile
      (afterCalls gapFileSystem gapFile
        [(noSegments, .getNumberOfExtents), (.unlimited, .getNumberOfExtents)]) := by
  have hafter : afterCalls gapFileSystem gapFile
      [(noSegments, .getNumberOfExtents), (.unlimited, .getNumberOfExtents)] =
        ⟨some [⟨1024, 512⟩, ⟨2048, 188⟩], [⟨1024, 512⟩, ⟨1024, 512⟩, ⟨2048, 512⟩]⟩ := by
    decide +kernel
  refine ⟨by decide +kernel, hafter, fun h => ?_⟩
  have hstream := h.some _ (congrArg FileEntryData.clusterBlockStream hafter)
  rw [hafter] at hstream
  have hgap : getDataStream gapFileSystem gapFile.clusterNumber gapFile.dataSize = _ :=
    getDataStream_gap
  rw [hgap] at hstream
  injection hstream with hstream
  injection hstream with hextents
  exact absurd hextents (by decide)

end LeftoverExtents

/-! ### The size of the data -/

section Size

variable {fs : FileSystem} {last : Nat}

/-- The allocation table links clusters from a start cluster on, one after the
other, with the number that follows them. -/
def LinkStep (fs : FileSystem) (last : Nat) (p q : List Nat × Nat) : Prop :=
  q.1 = p.1 ++ [p.2] ∧ 2 ≤ p.2 ∧ p.2 < last ∧
    fs.allocationTable.getClusterNumberByIndex (toInt32 p.2) = .ok q.2

def LinksClusters (fs : FileSystem) (last c : Nat) (clusters : List Nat) (next : Nat) : Prop :=
  Relation.ReflTransGen (LinkStep fs last) ([], c) (clusters, next)

/-- The chain of a start cluster has room for a number of bytes. -/
def HasRoom (fs : FileSystem) (clusterNumber size : Nat) : Prop :=
  ∃ last clusters next, lastClusterNumber fs.ioHandle.fileSystemFormat = .ok last ∧
    LinksClusters fs last clusterNumber clusters next ∧ size ≤ roomOf fs.ioHandle clusters

theorem linkStep_rightUnique : Relator.RightUnique (LinkStep fs last) := by
  rintro p ⟨xs, d⟩ ⟨ys, e⟩ ⟨hxs, _, _, hd⟩ ⟨hys, _, _, he⟩
  have hlink := hd.symm.trans he
  injection hlink with hlink
  exact Prod.ext (hxs.trans hys.symm) hlink

/-- Clusters that are linked further have no less room. -/
theorem roomOf_le_of_linked {p q : List Nat × Nat}
    (h : Relation.ReflTransGen (LinkStep fs last) p q) :
    roomOf fs.ioHandle p.1 ≤ roomOf fs.ioHandle q.1 := by
  induction h with
  | refl => exact le_rfl
  | tail _ hstep ih =>
    rw [hstep.1]
    exact le_trans ih (roomOf_append_le _ _ _)

theorem TakesClusters.links {size c next : Nat} {taken : List Nat}
    (h : TakesClusters fs last size c taken next) : LinksClusters fs last c taken next := by
  induction h with
  | start => exact .refl
  | next _ hnext ih => exact ih.tail ⟨rfl, hnext.cluster.1, hnext.cluster.2, hnext.link⟩

/-- The segments of a data stream have the bytes of its size exactly when the
chain has room for them. -/
theorem totalSize_eq_size_iff {clusterNumber size : Nat} {stream : DataStream}
    (hblock : fs.ioHandle.clusterBlockSize < 2 ^ 64)
    (h : getDataStream fs clusterNumber size = .ok stream) :
    totalSize stream.segments = size ↔ HasRoom fs clusterNumber size := by
  obtain ⟨rfl, _, last, next, hlast, htakes, hends⟩ := getDataStream_runs hblock h
  rw [totalSize_streamOfRuns, ← roomOf, min_eq_left_iff]
  constructor
  · intro hroom
    exact ⟨last, _, next, hlast, htakes.links, hroom⟩
  · rintro ⟨last', clusters, next', hlast', hlinks, hroom⟩
    rw [hlast] at hlast'
    injection hlast' with hlast'
    subst hlast'
    rcases Relation.ReflTransGen.total_of_right_unique linkStep_rightUnique hlinks
      htakes.links with hfurther | hshort
    · exact le_trans hroom (roomOf_le_of_linked hfurther)
    · rcases hshort.cases_head with heq | ⟨q, ⟨_, h2, hlt, _⟩, _⟩
      · injection heq with heq
        rwa [heq]
      · -- the loop did not go on, so its size was used up
        have hused : size ≤ totalSize (clusterRuns fs.ioHandle
            (acceptedClusters fs clusterNumber size)).closed := by
          by_contra hleft
          exact hends ⟨h2, hlt, not_le.mp hleft⟩
        apply le_trans hused
        rw [roomOf, Runs.all, totalSize_append]
        exact Nat.le_add_right _ _

theorem ensureDataStream_stream (containers : Containers) {fileEntry : FileEntry}
    {data : FileEntryData}
    (h : ∀ segments, data.clusterBlockStream = some segments →
      ∃ extents, getDataStream fs fileEntry.clusterNumber fileEntry.dataSize =
        .ok ⟨extents, segments⟩) :
    (∀ segments,
      (fileEntry.ensureDataStream containers fs data).1.clusterBlockStream = some segments →
        ∃ extents, getDataStream fs fileEntry.clusterNumber fileEntry.dataSize =
          .ok ⟨extents, segments⟩) ∧
      ∀ segments, (fileEntry.ensureDataStream containers fs data).2 = .ok segments →
        (fileEntry.ensureDataStream containers fs data).1.clusterBlockStream = some segments := by
  unfold FileEntry.ensureDataStream
  split
  · next hsome =>
    refine ⟨h, fun segments hok => ?_⟩
    injection hok with hok
    rw [hsome, hok]
  · cases hbuild : buildDataStream containers fs fileEntry.clusterNumber fileEntry.dataSize with
    | mk extents result =>
      cases result with
      | error e => exact ⟨fun segments hsome => (by cases hsome), fun segments hok => (by cases hok)⟩
      | ok built =>
        refine ⟨fun segments hsome => ?_, fun segments hok => ?_⟩
        · injection hsome with hsome
          exact ⟨extents, hsome ▸ buildDataStream_ok hbuild⟩
        · injection hok with hok
          exact congrArg some hok

/-- A data stream that is set was got by a successful call. -/
theorem afterCalls_stream (fileEntry : FileEntry) (calls : List (Containers × DataCall)) :
    ∀ segments, (afterCalls fs fileEntry calls).clusterBlockStream = some segments →
      ∃ extents, getDataStream fs fileEntry.clusterNumber fileEntry.dataSize =
        .ok ⟨extents, segments⟩ :=
  afterCalls_invariant (I := fun data => ∀ segments, data.clusterBlockStream = some segments →
      ∃ extents, getDataStream fs fileEntry.clusterNumber fileEntry.dataSize =
        .ok ⟨extents, segments⟩) (P := fun _ => True)
    (fun _ h => by cases h) (fun containers _ _ h => (ensureDataStream_stream containers h).1)
    fun _ _ => trivial

/-- Where a file entry can be read, at any time, its data stream has as many
bytes as its size says exactly when its chain has room for them. -/
theorem readBufferAtOffset_size_iff {α : Type} {containers : Containers} {fileEntry : FileEntry}
    {calls : List (Containers × DataCall)} {streamReadBufferAtOffset : List Extent → Except Error α}
    {data : FileEntryData} {value : α} (hblock : fs.ioHandle.clusterBlockSize < 2 ^ 64)
    (h : fileEntry.readBufferAtOffset containers fs (afterCalls fs fileEntry calls)
      streamReadBufferAtOffset = (data, .ok value)) :
    ∃ segments, data.clusterBlockStream = some segments ∧
      (totalSize segments = fileEntry.getSize ↔
        HasRoom fs fileEntry.clusterNumber fileEntry.getSize) := by
  unfold FileEntry.readBufferAtOffset FileEntry.withDataStream at h
  split at h
  · injection h with _ h
    cases h
  · obtain ⟨hstream, hok⟩ := ensureDataStream_stream containers (afterCalls_stream fileEntry calls)
    cases hensure : fileEntry.ensureDataStream containers fs (afterCalls fs fileEntry calls) with
    | mk after result =>
      rw [hensure] at h hstream hok
      injection h with hdata hvalue
      subst hdata
      cases result with
      | error e => cases hvalue
      | ok segments =>
        have hsome := hok segments rfl
        obtain ⟨extents, hextents⟩ := hstream segments hsome
        exact ⟨segments, hsome, totalSize_eq_size_iff hblock hextents⟩

/-- A file whose chain has room for it. -/
theorem readBufferAtOffset_size_iff_gap :
    ∃ segments, some [⟨1024, 512⟩, ⟨2048, 188⟩] = some segments ∧
      (totalSize segments = gapFile.getSize ↔
        HasRoom gapFileSystem gapFile.clusterNumber gapFile.getSize) :=
  have hread : gapFile.readBufferAtOffset .unlimited gapFileSystem
      (afterCalls gapFileSystem gapFile []) (fun _ => .ok ()) =
        (⟨some [⟨1024, 512⟩, ⟨2048, 188⟩], [⟨1024, 512⟩, ⟨2048, 512⟩]⟩, .ok ()) := by
    decide +kernel
  readBufferAtOffset_size_iff (by decide) hread

end Size

section ShortChain

/-- A FAT-12 volume with a root directory of 16 entries in its third sector. The
file in the first of them has a size of 1024, and the one cluster behind the
root directory. -/
def shortChainImage : List UInt8 :=
  List.replicate 11 0 ++ [0, 2, 1, 1, 0, 1, 16, 0, 8, 0, 0xf8, 1, 0] ++ List.replicate 486 0 ++
    [0x55, 0xaa] ++ [0xf8, 0xff, 0xff, 0xff, 0x0f] ++ List.replicate 507 0 ++
    (0x41 :: List.replicate 10 0x20) ++ (0x20 :: List.replicate 14 0) ++ [2, 0, 0, 4, 0, 0] ++
    List.replicate 480 0 ++ List.replicate 512 0x61

def shortChainEnvironment : OpenEnvironment where
  file :=
    { data := shortChainImage
      isOpen := .ok true
      openResult := .error .openFailed
      getSize := .ok 2048 }
  createFileSystem := .ok ()
  freshMemory _ := 0

/-- The bytes of the segments. -/
def segmentBytes (image : List UInt8) (segments : List Extent) : List UInt8 :=
  segments.flatMap fun segment => (image.drop segment.offset.toNat).take segment.size

theorem open_shortChain :
    ∃ opened fs root fileEntry,
      Volume.openFileIOHandle shortChainEnvironment accessFlagRead .create = (.ok (), opened) ∧
      opened.fileSystem = some ⟨some fs, some root⟩ ∧
      (getRootDirectory fs root).getSubFileEntryByIndex fs shortChainImage 0 = .ok fileEntry ∧
      fileEntry.getSize = 1024 ∧
      fileEntry.readBufferAtOffset .unlimited fs .create
          (fun segments => .ok (segmentBytes shortChainImage segments)) =
        (⟨some [⟨1536, 512⟩], [⟨1536, 512⟩]⟩, .ok (List.replicate 512 0x61)) := by
  have hresult : (Volume.openFileIOHandle shortChainEnvironment accessFlagRead .create).1 =
      .ok () := by decide +kernel
  have hopen : Volume.openFileIOHandle shortChainEnvironment accessFlagRead .create = (.ok (),
      (Volume.openFileIOHandle shortChainEnvironment accessFlagRead .create).2) := by
    rw [← hresult]
  have hread : (Volume.openFileIOHandle shortChainEnvironment accessFlagRead
      .create).2.fileSystem.bind (fun fileSystem => fileSystem.tables.bind fun fs =>
        fileSystem.rootDirectory.bind fun root =>
          ((getRootDirectory fs root).getSubFileEntryByIndex fs shortChainImage 0).toOption.map
            fun fileEntry => (fileEntry.getSize,
              fileEntry.readBufferAtOffset .unlimited fs .create
                (fun segments => .ok (segmentBytes shortChainImage segments)))) =
      some (1024, ⟨some [⟨1536, 512⟩], [⟨1536, 512⟩]⟩, .ok (List.replicate 512 0x61)) := by
    decide +kernel
  obtain ⟨bootRecord, fs, root, _, _, hfs⟩ := Volume.openFileIOHandle_ok hopen
  rw [hfs] at hread
  simp only [Option.bind_some] at hread
  cases hfile : (getRootDirectory fs root).getSubFileEntryByIndex fs shortChainImage 0 with
  | error e =>
    rw [hfile] at hread
    cases hread
  | ok fileEntry =>
    rw [hfile] at hread
    injection hread with hread
    injection hread with hsize hread
    exact ⟨_, fs, root, fileEntry, hopen, hfs, hfile, hsize, hread⟩

/-- The file of 1024 bytes has one cluster of 512 bytes. It can be read, and has
no more bytes than these. -/
theorem short_chain_is_no_error :
    ∃ opened fs root fileEntry segments data,
      Volume.openFileIOHandle shortChainEnvironment accessFlagRead .create = (.ok (), opened) ∧
      opened.fileSystem = some ⟨some fs, some root⟩ ∧
      (getRootDirectory fs root).getSubFileEntryByIndex fs shortChainImage 0 = .ok fileEntry ∧
      fileEntry.readBufferAtOffset .unlimited fs .create
          (fun segments => .ok (segmentBytes shortChainImage segments)) =
        (data, .ok (List.replicate 512 0x61)) ∧
      data.clusterBlockStream = some segments ∧ totalSize segments ≠ fileEntry.getSize := by
  obtain ⟨opened, fs, root, fileEntry, hopen, hfs, hfile, hsize, hread⟩ := open_shortChain
  refine ⟨opened, fs, root, fileEntry, _, _, hopen, hfs, hfile, hread, rfl, ?_⟩
  rw [hsize]
  decide

end ShortChain

end FsFat
