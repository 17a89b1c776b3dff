import FsFat.DataStream

/-!
The runs of a chain. A data stream takes the cluster blocks of a chain one by
one, but what it appends are the runs of the chain: an extent for each run, and
a segment that is cut to what is left of the size. Here both are functions of
the chain, and the loop that makes them with its variables computes the same.
-/

namespace FsFat

/-- The size of extents together. -/
def totalSize (extents : List Extent) : Nat := (extents.map (·.size)).sum

@[simp] theorem totalSize_nil : totalSize [] = 0 := rfl

@[simp] theorem totalSize_cons (extent : Extent) (rest : List Extent) :
    totalSize (extent :: rest) = extent.size + totalSize rest := by
  simp [totalSize]

@[simp] theorem totalSize_append (extents rest : List Extent) :
    totalSize (extents ++ rest) = totalSize extents + totalSize rest := by
  simp [totalSize]

/-! ### The runs -/

/-- The runs of blocks that were taken. Only the last can become longer. A last
run at offset zero is as good as none: the next block begins another run, and
the run is not kept. -/
structure Runs where
  closed : List Extent
  last : Extent

namespace Runs

def empty : Runs := ⟨[], ⟨0, 0⟩⟩

/-- A block that starts behind the end of the last run begins another, and any
other makes the run longer. -/
def add (blockSize : Nat) (runs : Runs) (offset : Int) : Runs :=
  if runs.last.offset = 0 then ⟨runs.closed, ⟨offset, blockSize⟩⟩
  else if toOff64 (runs.last.offset + runs.last.size) < offset then
    ⟨runs.closed ++ [runs.last], ⟨offset, blockSize⟩⟩
  else ⟨runs.closed, ⟨runs.last.offset, runs.last.size + blockSize⟩⟩

/-- All of the runs. -/
def all (runs : Runs) : List Extent :=
  runs.closed ++ if runs.last.offset = 0 then [] else [runs.last]

variable {runs : Runs} {blockSize : Nat} {offset : Int}

theorem add_of_none (h : runs.last.offset = 0) :
    runs.add blockSize offset = ⟨runs.closed, ⟨offset, blockSize⟩⟩ := if_pos h

theorem add_of_behind (h : runs.last.offset ≠ 0)
    (hbehind : toOff64 (runs.last.offset + runs.last.size) < offset) :
    runs.add blockSize offset = ⟨runs.closed ++ [runs.last], ⟨offset, blockSize⟩⟩ := by
  rw [add, if_neg h, if_pos hbehind]

theorem add_of_merged (h : runs.last.offset ≠ 0)
    (hmerged : offset ≤ toOff64 (runs.last.offset + runs.last.size)) :
    runs.add blockSize offset =
      ⟨runs.closed, ⟨runs.last.offset, runs.last.size + blockSize⟩⟩ := by
  rw [add, if_neg h, if_neg (not_lt.mpr hmerged)]

theorem totalSize_all_of_none (h : runs.last.offset = 0) :
    totalSize runs.all = totalSize runs.closed := by
  rw [all, if_pos h, List.append_nil]

theorem totalSize_all_of_some (h : runs.last.offset ≠ 0) :
    totalSize runs.all = totalSize runs.closed + runs.last.size := by
  simp [all, h]

/-- The three ways to take a block. -/
theorem add_cases (blockSize : Nat) (runs : Runs) (offset : Int) :
    (runs.last.offset = 0 ∧ runs.add blockSize offset = ⟨runs.closed, ⟨offset, blockSize⟩⟩) ∨
    (runs.last.offset ≠ 0 ∧ toOff64 (runs.last.offset + runs.last.size) < offset ∧
      runs.add blockSize offset = ⟨runs.closed ++ [runs.last], ⟨offset, blockSize⟩⟩) ∨
    (runs.last.offset ≠ 0 ∧ offset ≤ toOff64 (runs.last.offset + runs.last.size) ∧
      runs.add blockSize offset =
        ⟨runs.closed, ⟨runs.last.offset, runs.last.size + blockSize⟩⟩) := by
  by_cases hnone : runs.last.offset = 0
  · exact .inl ⟨hnone, add_of_none hnone⟩
  · rcases lt_or_ge (toOff64 (runs.last.offset + runs.last.size)) offset with hbehind | hmerged
    · exact .inr (.inl ⟨hnone, hbehind, add_of_behind hnone hbehind⟩)
    · exact .inr (.inr ⟨hnone, hmerged, add_of_merged hnone hmerged⟩)

/-- Where a block is not at offset zero, it is kept. -/
theorem totalSize_add (hoffset : offset ≠ 0) :
    totalSize (runs.add blockSize offset).all = totalSize runs.all + blockSize := by
  rcases add_cases blockSize runs offset with
    ⟨hnone, heq⟩ | ⟨hsome, _, heq⟩ | ⟨hsome, _, heq⟩
  · rw [heq, totalSize_all_of_none hnone, totalSize_all_of_some hoffset]
  · rw [heq, totalSize_all_of_some hsome, totalSize_all_of_some hoffset]
    simp
  · rw [heq, totalSize_all_of_some hsome, totalSize_all_of_some (by exact hsome), Nat.add_assoc]

/-- One block more never leaves less room. -/
theorem totalSize_le_add (blockSize : Nat) (runs : Runs) (offset : Int) :
    totalSize runs.all ≤ totalSize (runs.add blockSize offset).all := by
  by_cases hoffset : offset = 0
  · rcases add_cases blockSize runs offset with
      ⟨hnone, heq⟩ | ⟨hsome, _, heq⟩ | ⟨hsome, _, heq⟩
    · rw [heq, totalSize_all_of_none hnone, totalSize_all_of_none hoffset]
    · rw [heq, totalSize_all_of_some hsome, totalSize_all_of_none hoffset]
      simp
    · rw [heq, totalSize_all_of_some hsome, totalSize_all_of_some (by exact hsome)]
      simp
  · rw [totalSize_add hoffset]
    exact Nat.le_add_right _ _

/-- The runs are made of whole blocks. -/
structure Whole (blockSize : Nat) (runs : Runs) : Prop where
  closed : ∀ run ∈ runs.closed, 0 < run.size ∧ blockSize ∣ run.size
  last : runs.last.offset ≠ 0 → 0 < runs.last.size ∧ blockSize ∣ runs.last.size

theorem Whole.add (h : Whole blockSize runs) (hblock : 0 < blockSize) (offset : Int) :
    Whole blockSize (runs.add blockSize offset) := by
  rcases add_cases blockSize runs offset with
    ⟨_, heq⟩ | ⟨hsome, _, heq⟩ | ⟨hsome, _, heq⟩
  · rw [heq]
    exact ⟨h.closed, fun _ => ⟨hblock, dvd_rfl⟩⟩
  · rw [heq]
    refine ⟨fun run hrun => ?_, fun _ => ⟨hblock, dvd_rfl⟩⟩
    rcases List.mem_append.mp hrun with hrun | hrun
    · exact h.closed run hrun
    · exact List.mem_singleton.mp hrun ▸ h.last hsome
  · rw [heq]
    obtain ⟨hpos, hdvd⟩ := h.last hsome
    exact ⟨h.closed, fun _ => ⟨Nat.add_pos_left hpos _, Nat.dvd_add hdvd dvd_rfl⟩⟩

theorem Whole.all (h : Whole blockSize runs) :
    ∀ run ∈ runs.all, 0 < run.size ∧ blockSize ∣ run.size := by
  intro run hrun
  rcases List.mem_append.mp hrun with hrun | hrun
  · exact h.closed run hrun
  · split at hrun
    · cases hrun
    · next hsome => exact List.mem_singleton.mp hrun ▸ h.last hsome

end Runs

/-- The runs of a list of clusters. -/
def clusterRuns (ioHandle : IoHandle) (clusters : List Nat) : Runs :=
  clusters.foldl (fun runs c => runs.add ioHandle.clusterBlockSize (clusterOffset ioHandle c)) .empty

/-- The number of bytes that the runs of a list of clusters have room for. -/
def roomOf (ioHandle : IoHandle) (clusters : List Nat) : Nat :=
  totalSize (clusterRuns ioHandle clusters).all

section ClusterRuns

variable {ioHandle : IoHandle} {clusters : List Nat}

theorem clusterRuns_concat (ioHandle : IoHandle) (clusters : List Nat) (c : Nat) :
    clusterRuns ioHandle (clusters ++ [c]) = (clusterRuns ioHandle clusters).add
      ioHandle.clusterBlockSize (clusterOffset ioHandle c) := by
  simp [clusterRuns, List.foldl_append]

theorem clusterRuns_whole (hblock : 0 < ioHandle.clusterBlockSize) (clusters : List Nat) :
    (clusterRuns ioHandle clusters).Whole ioHandle.clusterBlockSize := by
  induction clusters using List.reverseRecOn with
  | nil => exact ⟨fun _ h => absurd h List.not_mem_nil, fun h => absurd rfl h⟩
  | append_singleton clusters c ih =>
    rw [clusterRuns_concat]
    exact ih.add hblock _

/-- The last run has no more than the blocks that were taken. -/
theorem clusterRuns_last_size_le (ioHandle : IoHandle) (clusters : List Nat) :
    (clusterRuns ioHandle clusters).last.size ≤
      clusters.length * ioHandle.clusterBlockSize := by
  induction clusters using List.reverseRecOn with
  | nil => exact Nat.zero_le _
  | append_singleton clusters c ih =>
    have hlength : (clusters ++ [c]).length * ioHandle.clusterBlockSize =
        clusters.length * ioHandle.clusterBlockSize + ioHandle.clusterBlockSize := by
      rw [List.length_append, List.length_singleton]
      ring
    rw [clusterRuns_concat, hlength]
    rcases Runs.add_cases ioHandle.clusterBlockSize (clusterRuns ioHandle clusters)
      (clusterOffset ioHandle c) with ⟨_, heq⟩ | ⟨_, _, heq⟩ | ⟨_, _, heq⟩
    · rw [heq]
      exact Nat.le_add_left _ _
    · rw [heq]
      exact Nat.le_add_left _ _
    · rw [heq]
      exact Nat.add_le_add_right ih _

/-- Where no block is at offset zero, every block is kept. -/
theorem roomOf_eq (h : ∀ c ∈ clusters, clusterOffset ioHandle c ≠ 0) :
    roomOf ioHandle clusters = clusters.length * ioHandle.clusterBlockSize := by
  induction clusters using List.reverseRecOn with
  | nil => simp [roomOf, clusterRuns, Runs.all, Runs.empty]
  | append_singleton clusters c ih =>
    have hoffset : clusterOffset ioHandle c ≠ 0 :=
      h c (List.mem_append_right _ List.mem_cons_self)
    have hroom := ih fun d hd => h d (List.mem_append_left _ hd)
    rw [roomOf, clusterRuns_concat, Runs.totalSize_add hoffset, ← roomOf, hroom,
      List.length_append, List.length_singleton]
    ring

/-- More clusters never have less room. -/
theorem roomOf_append_le (ioHandle : IoHandle) (clusters rest : List Nat) :
    roomOf ioHandle clusters ≤ roomOf ioHandle (clusters ++ rest) := by
  induction rest using List.reverseRecOn with
  | nil => rw [List.append_nil]
  | append_singleton rest c ih =>
    rw [← List.append_assoc]
    apply le_trans ih
    rw [roomOf, roomOf, clusterRuns_concat]
    exact Runs.totalSize_le_add _ _ _

end ClusterRuns

/-! ### The data stream of runs -/

/-- What is appended for runs, as long as the size is not used up. -/
def streamOfRuns : List Extent → Nat → DataStream
  | [], _ => ⟨[], []⟩
  | run :: rest, size =>
    if size = 0 then ⟨[], []⟩
    else
      let stream := streamOfRuns rest (size - min run.size size)
      ⟨run :: stream.extents, ⟨run.offset, min run.size size⟩ :: stream.segments⟩

@[simp] theorem streamOfRuns_zero (runs : List Extent) : streamOfRuns runs 0 = ⟨[], []⟩ := by
  cases runs <;> rfl

/-- Runs behind those that use up the size are left out. -/
theorem streamOfRuns_append_of_le {runs : List Extent} {size : Nat} (h : size ≤ totalSize runs)
    (rest : List Extent) : streamOfRuns (runs ++ rest) size = streamOfRuns runs size := by
  induction runs generalizing size with
  | nil =>
    rw [totalSize_nil, Nat.le_zero] at h
    rw [h, streamOfRuns_zero, streamOfRuns_zero]
  | cons run runs ih =>
    rw [totalSize_cons] at h
    simp only [List.cons_append, streamOfRuns]
    rw [ih (by omega)]

/-- The run behind those that leave a part of the size. -/
theorem streamOfRuns_concat {runs : List Extent} {size : Nat} (h : totalSize runs < size)
    (run : Extent) :
    streamOfRuns (runs ++ [run]) size =
      ⟨(streamOfRuns runs size).extents ++ [run], (streamOfRuns runs size).segments ++
        [⟨run.offset, min run.size (size - totalSize runs)⟩]⟩ := by
  induction runs generalizing size with
  | nil =>
    rw [totalSize_nil] at h
    simp [streamOfRuns, Nat.pos_iff_ne_zero.mp h]
  | cons first runs ih =>
    rw [totalSize_cons] at h
    have hne : size ≠ 0 := by omega
    have hfirst : min first.size size = first.size := by omega
    simp only [List.cons_append, streamOfRuns, if_neg hne, hfirst]
    rw [ih (by omega), totalSize_cons, Nat.sub_sub]

/-- As long as a part of the size is left, nothing is left out. -/
theorem streamOfRuns_of_lt {runs : List Extent} {size : Nat} (h : totalSize runs < size) :
    (streamOfRuns runs size).extents = runs ∧
      (streamOfRuns runs size).segments.length = runs.length := by
  induction runs generalizing size with
  | nil => exact ⟨rfl, rfl⟩
  | cons run runs ih =>
    rw [totalSize_cons] at h
    have hne : size ≠ 0 := by omega
    obtain ⟨hextents, hlength⟩ := @ih (size - min run.size size) (by omega)
    simp only [streamOfRuns, if_neg hne, hextents, List.length_cons, hlength, and_self]

theorem totalSize_streamOfRuns (runs : List Extent) (size : Nat) :
    totalSize (streamOfRuns runs size).segments = min size (totalSize runs) := by
  induction runs generalizing size with
  | nil => simp [streamOfRuns]
  | cons run rest ih =>
    simp only [streamOfRuns]
    split
    · next hsize => simp [hsize]
    · simp only [totalSize_cons, ih]
      omega

/-- The extents and the segments are in step: there are as many of them, an
extent and its segment start at the same offset, the extent is made of whole
blocks, and the segment is all of it or, if it is the last, a part. -/
structure InStep (blockSize : Nat) (extents segments : List Extent) : Prop where
  length_eq : extents.length = segments.length
  offset_eq : ∀ (i : Nat) (extent segment : Extent), extents[i]? = some extent →
    segments[i]? = some segment → segment.offset = extent.offset
  extent_size : ∀ extent ∈ extents, 0 < extent.size ∧ blockSize ∣ extent.size
  segment_size : ∀ (i : Nat) (extent segment : Extent), extents[i]? = some extent →
    segments[i]? = some segment → 0 < segment.size ∧ segment.size ≤ extent.size ∧
      (i + 1 < segments.length → segment.size = extent.size)

theorem inStep_nil (blockSize : Nat) : InStep blockSize [] [] where
  length_eq := rfl
  offset_eq := fun _ _ _ h => by cases h
  extent_size := fun _ h => by cases h
  segment_size := fun _ _ _ h => by cases h

/-- A whole segment in front. -/
theorem InStep.cons {blockSize : Nat} {extents segments : List Extent}
    (h : InStep blockSize extents segments) {run : Extent} {size : Nat}
    (hrun : 0 < run.size ∧ blockSize ∣ run.size) (hpos : 0 < size) (hle : size ≤ run.size)
    (hlast : segments ≠ [] → size = run.size) :
    InStep blockSize (run :: extents) (⟨run.offset, size⟩ :: segments) where
  length_eq := congrArg (· + 1) h.length_eq
  offset_eq
    | 0, extent, segment, hextent, hsegment => by
      injection hextent with hextent
      injection hsegment with hsegment
      rw [← hextent, ← hsegment]
    | i + 1, extent, segment, hextent, hsegment => h.offset_eq i extent segment hextent hsegment
  extent_size := by
    intro extent hextent
    rcases List.mem_cons.mp hextent with rfl | hextent
    · exact hrun
    · exact h.extent_size extent hextent
  segment_size
    | 0, extent, segment, hextent, hsegment => by
      injection hextent with hextent
      injection hsegment with hsegment
      rw [← hextent, ← hsegment]
      refine ⟨hpos, hle, fun hlength => hlast ?_⟩
      intro hnil
      simp [hnil] at hlength
    | i + 1, extent, segment, hextent, hsegment => by
      obtain ⟨hpos', hle', hwhole⟩ := h.segment_size i extent segment hextent hsegment
      exact ⟨hpos', hle', fun hlength => hwhole (Nat.lt_of_succ_lt_succ hlength)⟩

theorem streamOfRuns_inStep {blockSize : Nat} {runs : List Extent}
    (h : ∀ run ∈ runs, 0 < run.size ∧ blockSize ∣ run.size) (size : Nat) :
    InStep blockSize (streamOfRuns runs size).extents (streamOfRuns runs size).segments := by
  induction runs generalizing size with
  | nil => exact inStep_nil blockSize
  | cons run rest ih =>
    simp only [streamOfRuns]
    split
    · exact inStep_nil blockSize
    · next hsize =>
      have hrun := h run List.mem_cons_self
      have hrest := ih (fun r hr => h r (List.mem_cons_of_mem _ hr)) (size - min run.size size)
      refine hrest.cons hrun (by omega) (Nat.min_le_left _ _) fun hne => ?_
      -- nothing follows a segment that uses up the size
      by_contra hpart
      apply hne
      have hused : size - min run.size size = 0 := by omega
      rw [hused, streamOfRuns_zero]

/-! ### The loop -/

namespace DataStreamState

/-- The variables of the loop stand for the runs of the blocks that it has taken
for a stream of the given size. -/
structure HasTaken (s : DataStreamState) (size : Nat) (runs : Runs) : Prop where
  start_eq : s.segmentStartOffset = runs.last.offset
  end_eq : runs.last.offset ≠ 0 →
    s.segmentEndOffset = toOff64 (runs.last.offset + runs.last.size)
  size_lt : runs.last.size < 2 ^ 64
  stream_eq : s.stream = streamOfRuns runs.closed size
  size_eq : s.size = size - totalSize runs.closed

theorem start_hasTaken (size : Nat) : (start size).HasTaken size .empty where
  start_eq := rfl
  end_eq := fun h => absurd rfl h
  size_lt := by decide
  stream_eq := rfl
  size_eq := rfl

variable {s : DataStreamState} {size blockSize : Nat} {runs : Runs}

theorem HasTaken.flush (h : s.HasTaken size runs) (hsome : runs.last.offset ≠ 0)
    (hsize : 0 < s.size) :
    s.flush.stream = streamOfRuns (runs.closed ++ [runs.last]) size ∧
      s.flush.size = size - totalSize (runs.closed ++ [runs.last]) := by
  have hleft := h.size_eq
  have hlast : toUint64 (s.segmentEndOffset - s.segmentStartOffset) = runs.last.size := by
    rw [h.end_eq hsome, h.start_eq, toUint64_run h.size_lt]
  constructor
  · rw [streamOfRuns_concat (by omega)]
    simp only [DataStreamState.flush, hlast]
    simp only [h.start_eq, h.stream_eq, h.size_eq]
  · simp only [DataStreamState.flush, hlast, totalSize_append, totalSize_cons, totalSize_nil]
    omega

/-- The body of the loop takes a block. -/
theorem HasTaken.add (h : s.HasTaken size runs) (hsize : 0 < s.size)
    (hblock : runs.last.size + blockSize < 2 ^ 64) (offset : Int) :
    (s.addClusterBlock blockSize offset).HasTaken size (runs.add blockSize offset) := by
  have hstart := h.start_eq
  rcases runs.add_cases blockSize offset with
    ⟨hnone, heq⟩ | ⟨hsome, hbehind, heq⟩ | ⟨hsome, hmerged, heq⟩
  · have hadd : s.addClusterBlock blockSize offset =
        { s with
          segmentStartOffset := offset, segmentEndOffset := toOff64 (offset + blockSize) } := by
      simp [addClusterBlock, hstart, hnone]
    rw [heq, hadd]
    exact ⟨rfl, fun _ => rfl, by simp only; omega, h.stream_eq, h.size_eq⟩
  · obtain ⟨hstream, hleft⟩ := h.flush hsome hsize
    have hadd : s.addClusterBlock blockSize offset =
        { s.flush with
          segmentStartOffset := offset, segmentEndOffset := toOff64 (offset + blockSize) } := by
      simp [addClusterBlock, hstart, hsome, h.end_eq hsome, hbehind]
    rw [heq, hadd]
    exact ⟨rfl, fun _ => rfl, by simp only; omega, hstream, hleft⟩
  · have hadd : s.addClusterBlock blockSize offset =
        { s with segmentEndOffset := toOff64 (s.segmentEndOffset + blockSize) } := by
      simp [addClusterBlock, hstart, hsome, h.end_eq hsome, not_lt.mpr hmerged]
    rw [heq, hadd]
    refine ⟨hstart, fun _ => ?_, hblock, h.stream_eq, h.size_eq⟩
    simp only [h.end_eq hsome, toOff64]
    rw [Int.bmod_add_bmod, Nat.cast_add, Int.add_assoc]

/-- What follows the loop appends the last run. -/
theorem HasTaken.finish (h : s.HasTaken size runs) : s.finish = streamOfRuns runs.all size := by
  have hstart := h.start_eq
  have hleft := h.size_eq
  unfold DataStreamState.finish
  split
  · next happend =>
    have hsome : runs.last.offset ≠ 0 := hstart ▸ happend.2
    rw [(h.flush hsome happend.1).1, Runs.all, if_neg hsome]
  · next hend =>
    rw [h.stream_eq, Runs.all]
    by_cases hsize : 0 < s.size
    · have hnone : runs.last.offset = 0 := by
        rw [← hstart]
        by_contra hsome
        exact hend ⟨hsize, hsome⟩
      rw [if_pos hnone, List.append_nil]
    · rw [streamOfRuns_append_of_le (by omega)]

end DataStreamState

/-! ### The walk -/

section Walk

variable {fs : FileSystem} {last size : Nat}

/-- The loop takes a cluster, and the allocation table has the number that
follows it. -/
structure TakesNext (fs : FileSystem) (last size : Nat) (taken : List Nat) (c next : Nat) :
    Prop where
  cluster : 2 ≤ c ∧ c < last
  left : totalSize (clusterRuns fs.ioHandle taken).closed < size
  covers : BlockTree.Covers fs.ioHandle.volumeSize fs.ioHandle.clusterBlockSize
    (clusterOffset fs.ioHandle c)
  fresh : ∀ d ∈ taken, clusterBlock fs.ioHandle d ≠ clusterBlock fs.ioHandle c
  link : fs.allocationTable.getClusterNumberByIndex (toInt32 c) = .ok next

/-- The clusters that the loop takes from a start cluster, one after the other,
and the number that follows them. -/
inductive TakesClusters (fs : FileSystem) (last size c : Nat) : List Nat → Nat → Prop where
  | start : TakesClusters fs last size c [] c
  | next {taken : List Nat} {d next : Nat} : TakesClusters fs last size c taken d →
      TakesNext fs last size taken d next → TakesClusters fs last size c (taken ++ [d]) next

/-- The loop ends at a number: it is not a cluster, or the size is used up. -/
def EndsAt (fs : FileSystem) (last size : Nat) (taken : List Nat) (c : Nat) : Prop :=
  ¬ (2 ≤ c ∧ c < last ∧ totalSize (clusterRuns fs.ioHandle taken).closed < size)

/-- The variables of the walk stand for the clusters that were taken. -/
structure WalksAlong (fs : FileSystem) (last size c : Nat) (w : ChainWalk DataStreamState) :
    Prop where
  accepted : Accepted fs last w.tree w.accepted
  takes : TakesClusters fs last size c w.accepted w.clusterNumber
  value : w.value.HasTaken size (clusterRuns fs.ioHandle w.accepted)

/-- As a `size_t`, a cluster block is not too large for the volume: the accepted
clusters never have more bytes than 64 bits can count. -/
theorem Accepted.length_mul_lt {tree : BlockTree} {accepted : List Nat}
    (h : Accepted fs last tree accepted) (hblock : fs.ioHandle.clusterBlockSize < 2 ^ 64)
    (hmax : fs.ioHandle.volumeSize ≤ int64Max) :
    accepted.length * fs.ioHandle.clusterBlockSize < 2 ^ 64 := by
  have hpos := h.tree.leaf_pos
  have hint : int64Max = 2 ^ 63 - 1 := rfl
  have hle := Nat.mul_le_mul_right fs.ioHandle.clusterBlockSize h.length_le
  have hblocks := Nat.div_mul_le_self
    (fs.ioHandle.volumeSize + fs.ioHandle.clusterBlockSize - 1) fs.ioHandle.clusterBlockSize
  rw [← numberOfBlocks] at hblocks
  rcases le_or_gt fs.ioHandle.clusterBlockSize (2 ^ 63) with hsmall | hlarge
  · omega
  · -- the volume is not larger than one block
    have hone : numberOfBlocks fs.ioHandle ≤ 1 := by
      rw [numberOfBlocks, ← Nat.lt_succ_iff, Nat.div_lt_iff_lt_mul hpos]
      omega
    have hmul := Nat.mul_le_mul_right fs.ioHandle.clusterBlockSize (le_trans h.length_le hone)
    omega

theorem endsAt_iff {c : Nat} {w : ChainWalk DataStreamState} (h : WalksAlong fs last size c w) :
    EndsAt fs last size w.accepted w.clusterNumber ↔ ¬ Visits last (dataStreamVisitor fs) w := by
  have hleft := h.value.size_eq
  have hfinished : (dataStreamVisitor fs).finished w.value = false ↔
      totalSize (clusterRuns fs.ioHandle w.accepted).closed < size := by
    simp only [dataStreamVisitor, decide_eq_false_iff_not]
    omega
  rw [EndsAt, Visits, hfinished]

/-- The block of an accepted cluster is added to the runs. -/
theorem WalksAlong.hasTaken_add {c : Nat} {w : ChainWalk DataStreamState}
    (h : WalksAlong fs last size c w) (hblock : fs.ioHandle.clusterBlockSize < 2 ^ 64)
    (hmax : fs.ioHandle.volumeSize ≤ int64Max) {tree : BlockTree}
    (haccepted : Accepted fs last tree (w.accepted ++ [w.clusterNumber]))
    (hleft : totalSize (clusterRuns fs.ioHandle w.accepted).closed < size) :
    (w.value.addClusterBlock fs.ioHandle.clusterBlockSize
      (clusterOffset fs.ioHandle w.clusterNumber)).HasTaken size
        (clusterRuns fs.ioHandle (w.accepted ++ [w.clusterNumber])) := by
  have hbytes := haccepted.length_mul_lt hblock hmax
  have hrun := clusterRuns_last_size_le fs.ioHandle w.accepted
  have hsize := h.value.size_eq
  rw [List.length_append, List.length_singleton, Nat.add_mul, Nat.one_mul] at hbytes
  rw [clusterRuns_concat]
  exact h.value.add (by omega) (by omega) _

/-- What the body of the loop does: it ends, it fails, or it takes a cluster. -/
theorem WalksAlong.step {c : Nat} {w : ChainWalk DataStreamState}
    (h : WalksAlong fs last size c w) (hblock : fs.ioHandle.clusterBlockSize < 2 ^ 64)
    (hmax : fs.ioHandle.volumeSize ≤ int64Max) :
    (EndsAt fs last size w.accepted w.clusterNumber ∧
      chainStep fs last (dataStreamVisitor fs) w = .done (w.accepted, .ok w.value)) ∨
    ((∃ accepted e, chainStep fs last (dataStreamVisitor fs) w = .done (accepted, .error e)) ∧
      ¬ EndsAt fs last size w.accepted w.clusterNumber ∧
      ∀ next, ¬ TakesNext fs last size w.accepted w.clusterNumber next) ∨
    ∃ w', chainStep fs last (dataStreamVisitor fs) w = .next w' ∧
      w'.accepted = w.accepted ++ [w.clusterNumber] ∧
      TakesNext fs last size w.accepted w.clusterNumber w'.clusterNumber ∧
      WalksAlong fs last size c w' := by
  by_cases hvisits : Visits last (dataStreamVisitor fs) w
  · have hnotEnds : ¬ EndsAt fs last size w.accepted w.clusterNumber := by
      rw [endsAt_iff h]
      exact not_not_intro hvisits
    obtain ⟨h2, hlast, hleft⟩ := not_not.mp hnotEnds
    by_cases hin : BlockTree.Covers fs.ioHandle.volumeSize fs.ioHandle.clusterBlockSize
        (clusterOffset fs.ioHandle w.clusterNumber) ∧
      ∀ d ∈ w.accepted, clusterBlock fs.ioHandle d ≠ clusterBlock fs.ioHandle w.clusterNumber
    · obtain ⟨tree, haccepted, hstep⟩ :=
        chainStep_accepted (dataStreamVisitor fs) hvisits h.accepted hin.1 hin.2
      simp only [afterVisit, dataStreamVisitor] at hstep
      cases hlink : fs.allocationTable.getClusterNumberByIndex (toInt32 w.clusterNumber) with
      | error e =>
        rw [hlink] at hstep
        refine .inr (.inl ⟨⟨_, e, hstep⟩, hnotEnds, fun next hnext => ?_⟩)
        have hok := hnext.link
        rw [hlink] at hok
        cases hok
      | ok next =>
        rw [hlink] at hstep
        have htakes : TakesNext fs last size w.accepted w.clusterNumber next :=
          ⟨⟨h2, hlast⟩, hleft, hin.1, hin.2, hlink⟩
        exact .inr (.inr ⟨_, hstep, rfl, htakes, haccepted, h.takes.next htakes,
          h.hasTaken_add hblock hmax haccepted hleft⟩)
    · obtain ⟨e, he⟩ := chainStep_refused (dataStreamVisitor fs) hvisits h.accepted hin
      refine .inr (.inl ⟨⟨_, e, he⟩, hnotEnds, fun next hnext => ?_⟩)
      exact hin ⟨hnext.covers, hnext.fresh⟩
  · exact .inl ⟨(endsAt_iff h).mpr hvisits, chainStep_exit hvisits⟩

/-- The clusters that the loop accepts, if it comes to its loop. -/
def acceptedClusters (fs : FileSystem) (clusterNumber size : Nat) : List Nat :=
  match lastClusterNumber fs.ioHandle.fileSystemFormat,
    BlockTree.create fs.ioHandle.volumeSize fs.ioHandle.clusterBlockSize with
  | .ok last, .ok tree =>
    (walkChain fs last (dataStreamVisitor fs) tree clusterNumber (.start size)).1
  | _, _ => []

/-- A walk that does not fail took its clusters one after the other, and ended
at the next number. -/
theorem walkChain_takes {tree : BlockTree} {c : Nat}
    (htree : BlockTree.create fs.ioHandle.volumeSize fs.ioHandle.clusterBlockSize = .ok tree)
    (hblock : fs.ioHandle.clusterBlockSize < 2 ^ 64) {value : DataStreamState}
    (h : (walkChain fs last (dataStreamVisitor fs) tree c (.start size)).2 = .ok value) :
    let accepted := (walkChain fs last (dataStreamVisitor fs) tree c (.start size)).1
    value.HasTaken size (clusterRuns fs.ioHandle accepted) ∧
      ∃ next, TakesClusters fs last size c accepted next ∧ EndsAt fs last size accepted next := by
  obtain ⟨⟨_, _, hmax⟩, hempty⟩ := standsFor_of_create htree
  have hreturns : Loop.Returns (chainStep fs last (dataStreamVisitor fs))
      ⟨c, tree, [], .start size⟩
      (walkChain fs last (dataStreamVisitor fs) tree c (.start size)) :=
    ⟨_, walkChain_returns hempty⟩
  refine hreturns.invariant (I := WalksAlong fs last size c)
    (P := fun result => ∀ value, result.2 = .ok value →
      value.HasTaken size (clusterRuns fs.ioHandle result.1) ∧
        ∃ next, TakesClusters fs last size c result.1 next ∧ EndsAt fs last size result.1 next)
    ?_ ?_ ?_ value h
  · exact ⟨accepted_nil hempty, .start, DataStreamState.start_hasTaken size⟩
  · intro w w' hw hstep
    rcases hw.step hblock hmax with ⟨_, heq⟩ | ⟨⟨_, _, heq⟩, _⟩ | ⟨_, heq, _, _, hw'⟩
    · rw [heq] at hstep
      cases hstep
    · rw [heq] at hstep
      cases hstep
    · rw [heq] at hstep
      injection hstep with hstep
      exact hstep ▸ hw'
  · intro w result hw hstep value hvalue
    rcases hw.step hblock hmax with ⟨hends, heq⟩ | ⟨⟨_, _, heq⟩, _⟩ | ⟨_, heq, _⟩
    · rw [heq] at hstep
      injection hstep with hstep
      subst hstep
      injection hvalue with hvalue
      subst hvalue
      exact ⟨hw.value, _, hw.takes, hends⟩
    · rw [heq] at hstep
      injection hstep with hstep
      subst hstep
      cases hvalue
    · rw [heq] at hstep
      cases hstep

/-- A stream that is made consists of the runs of the accepted clusters. -/
theorem getDataStream_runs {clusterNumber : Nat} {stream : DataStream}
    (hblock : fs.ioHandle.clusterBlockSize < 2 ^ 64)
    (h : getDataStream fs clusterNumber size = .ok stream) :
    let accepted := acceptedClusters fs clusterNumber size
    stream = streamOfRuns (clusterRuns fs.ioHandle accepted).all size ∧
      0 < fs.ioHandle.clusterBlockSize ∧
      ∃ last next, lastClusterNumber fs.ioHandle.fileSystemFormat = .ok last ∧
        TakesClusters fs last size clusterNumber accepted next ∧
        EndsAt fs last size accepted next := by
  cases hlast : lastClusterNumber fs.ioHandle.fileSystemFormat with
  | error e => simp [getDataStream, hlast, bind, Except.bind] at h
  | ok last =>
    cases htree : BlockTree.create fs.ioHandle.volumeSize fs.ioHandle.clusterBlockSize with
    | error e =>
      simp only [getDataStream, hlast, htree, bind, Except.bind] at h
      split at h <;> cases h
    | ok tree =>
      have haccepted : acceptedClusters fs clusterNumber size =
          (walkChain fs last (dataStreamVisitor fs) tree clusterNumber (.start size)).1 := by
        simp only [acceptedClusters, hlast, htree]
      rw [getDataStream_eq_walk hlast htree] at h
      split at h
      · cases hresult : (walkChain fs last (dataStreamVisitor fs) tree clusterNumber
            (.start size)).2 with
        | error e =>
          rw [hresult] at h
          cases h
        | ok value =>
          rw [hresult] at h
          injection h with h
          obtain ⟨hvalue, next, htakes, hends⟩ := walkChain_takes htree hblock hresult
          rw [haccepted]
          exact ⟨h ▸ hvalue.finish, (standsFor_of_create htree).1.1, last, next, rfl, htakes,
            hends⟩
      · cases h

theorem TakesClusters.mem {c next : Nat} {taken : List Nat}
    (h : TakesClusters fs last size c taken next) {d : Nat} (hd : d ∈ taken) :
    2 ≤ d ∧ d < last := by
  induction h with
  | start => cases hd
  | next _ hnext ih =>
    rcases List.mem_append.mp hd with hd | hd
    · exact ih hd
    · exact List.mem_singleton.mp hd ▸ hnext.cluster

/-- In a file system with room in front of its clusters, whose offsets do not
wrap in 64 bits, the extents and the segments are in step, and the segments have
the bytes of the accepted clusters, or as many of them as the size asks for. -/
theorem getDataStream_inStep {clusterNumber : Nat} {stream : DataStream}
    (hfirst : 0 < fs.ioHandle.firstClusterOffset)
    (hblock : fs.ioHandle.clusterBlockSize < 2 ^ 64)
    (hoffset : ∀ c ∈ acceptedClusters fs clusterNumber size,
      clusterOffset fs.ioHandle c = clusterStart fs.ioHandle c)
    (h : getDataStream fs clusterNumber size = .ok stream) :
    InStep fs.ioHandle.clusterBlockSize stream.extents stream.segments ∧
      totalSize stream.segments = min size
        ((acceptedClusters fs clusterNumber size).length * fs.ioHandle.clusterBlockSize) := by
  obtain ⟨rfl, hpos, last, next, _, htakes, _⟩ := getDataStream_runs hblock h
  have hnonzero : ∀ c ∈ acceptedClusters fs clusterNumber size,
      clusterOffset fs.ioHandle c ≠ 0 := by
    intro c hc
    obtain ⟨h2, _⟩ := htakes.mem hc
    have hblocks : 0 ≤ ((c : Int) - 2) * fs.ioHandle.clusterBlockSize :=
      Int.mul_nonneg (by omega) (by omega)
    rw [hoffset c hc, clusterStart]
    omega
  constructor
  · exact streamOfRuns_inStep (clusterRuns_whole hpos _).all size
  · rw [totalSize_streamOfRuns, ← roomOf_eq hnonzero]
    rfl

end Walk

/-- A FAT-16 file system with a file of the clusters 2 and 4. -/
def gapFileSystem : FileSystem where
  ioHandle :=
    { volumeSize := 4096
      fileSystemFormat := .fat16
      bytesPerSector := 512
      clusterBlockSize := 512
      totalNumberOfClusters := 5
      rootDirectoryOffset := 512
      firstClusterOffset := 1024 }
  allocationTable := ⟨[0xfff8, 0xffff, 4, 0, 0xffff], by decide, by decide, by decide⟩
  reversedAllocationTable := none

theorem getDataStream_gap : getDataStream gapFileSystem 2 700 =
    .ok ⟨[⟨1024, 512⟩, ⟨2048, 512⟩], [⟨1024, 512⟩, ⟨2048, 188⟩]⟩ := by decide +kernel

/-- The first cluster is a run of its own, and the second run is cut. -/
theorem getDataStream_inStep_gap :
    InStep gapFileSystem.ioHandle.clusterBlockSize
        [⟨1024, 512⟩, ⟨2048, 512⟩] [⟨1024, 512⟩, ⟨2048, 188⟩] ∧
      totalSize [⟨1024, 512⟩, ⟨2048, 188⟩] = min 700
        ((acceptedClusters gapFileSystem 2 700).length *
          gapFileSystem.ioHandle.clusterBlockSize) :=
  getDataStream_inStep (by decide) (by decide) (by decide +kernel) getDataStream_gap

end FsFat
