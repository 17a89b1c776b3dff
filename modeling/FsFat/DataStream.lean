import FsFat.FileSystem

/-!
The segments of a data stream. The content of a file is the sequence of its
cluster blocks. The loop that makes the segments merges a cluster block into
the run before it unless the block starts behind the end of the run. So a block
that starts before the run is merged as if it followed it, and the segments are
the content of the file exactly when no such block is needed.
-/

namespace FsFat

/-- The positions of the bytes of an extent. -/
def Extent.positions (extent : Extent) : List Int :=
  (List.range extent.size).map fun k => extent.offset + (k : Nat)

@[simp] theorem Extent.length_positions (offset : Int) (size : Nat) :
    (Extent.positions ⟨offset, size⟩).length = size := by
  simp [Extent.positions]

@[simp] theorem Extent.positions_zero (offset : Int) : Extent.positions ⟨offset, 0⟩ = [] := rfl

theorem Extent.positions_add (offset : Int) (a b : Nat) :
    Extent.positions ⟨offset, a + b⟩ =
      Extent.positions ⟨offset, a⟩ ++ Extent.positions ⟨offset + a, b⟩ := by
  simp only [Extent.positions, List.range_add, List.map_append, List.map_map]
  congr 1
  refine List.map_congr_left fun k _ => ?_
  simp only [Function.comp_apply, Nat.cast_add]
  omega

theorem Extent.take_positions (offset : Int) (size count : Nat) :
    (Extent.positions ⟨offset, size⟩).take count = Extent.positions ⟨offset, min size count⟩ := by
  simp only [Extent.positions, ← List.map_take, List.take_range, Nat.min_comm]

theorem Extent.getElem?_positions {offset : Int} {size k : Nat} (h : k < size) :
    (Extent.positions ⟨offset, size⟩)[k]? = some (offset + k) := by
  simp [Extent.positions, h]

/-- The positions of the bytes of the extents, in order. -/
def positionsOf (extents : List Extent) : List Int := extents.flatMap Extent.positions

/-- The positions of the bytes of the cluster blocks of a chain, in order. -/
def chainPositions (ioHandle : IoHandle) (chain : List Nat) : List Int :=
  chain.flatMap fun c => Extent.positions ⟨clusterStart ioHandle c, ioHandle.clusterBlockSize⟩

theorem chainPositions_append (ioHandle : IoHandle) (xs ys : List Nat) :
    chainPositions ioHandle (xs ++ ys) = chainPositions ioHandle xs ++ chainPositions ioHandle ys :=
  List.flatMap_append

theorem length_chainPositions (ioHandle : IoHandle) (chain : List Nat) :
    (chainPositions ioHandle chain).length = chain.length * ioHandle.clusterBlockSize := by
  induction chain with
  | nil => simp [chainPositions]
  | cons c chain ih =>
    simp only [chainPositions, List.flatMap_cons, List.length_append,
      Extent.length_positions, List.length_cons] at ih ⊢
    rw [ih]
    ring

namespace DataStreamState

/-- The positions of the segments that the stream gets if the loop ends here. -/
def positions (s : DataStreamState) : List Int := positionsOf s.finish.segments

/-- The loop has a run of `length` bytes, and the segments and what is left of
the size make up the size of the stream. -/
structure HasRun (s : DataStreamState) (total length : Nat) : Prop where
  start_pos : 0 < s.segmentStartOffset
  end_eq : s.segmentEndOffset = toOff64 (s.segmentStartOffset + length)
  length_lt : length < 2 ^ 64
  total_eq : (positionsOf s.stream.segments).length + s.size = total

/-- The size of a run, whatever its end offset became in 64 bits. -/
theorem toUint64_run {start : Int} {length : Nat} (h : length < 2 ^ 64) :
    toUint64 (toOff64 (start + length) - start) = length := by
  unfold toUint64 toOff64
  rw [Int.bmod_def]
  push_cast
  split <;> omega

variable {s : DataStreamState} {total length : Nat}

theorem HasRun.flush_segments (h : s.HasRun total length) :
    positionsOf s.flush.stream.segments =
      positionsOf s.stream.segments ++
        Extent.positions ⟨s.segmentStartOffset, min length s.size⟩ := by
  simp only [flush, h.end_eq, toUint64_run h.length_lt, positionsOf, List.flatMap_append,
    List.flatMap_cons, List.flatMap_nil, List.append_nil]

theorem HasRun.flush_size (h : s.HasRun total length) :
    s.flush.size = s.size - min length s.size := by
  simp only [flush, h.end_eq, toUint64_run h.length_lt]

theorem HasRun.positions_eq (h : s.HasRun total length) :
    s.positions = positionsOf s.stream.segments ++
      Extent.positions ⟨s.segmentStartOffset, min length s.size⟩ := by
  have hpos := h.start_pos
  unfold positions finish
  by_cases hsize : 0 < s.size
  · rw [if_pos ⟨hsize, by omega⟩, h.flush_segments]
  · rw [if_neg (fun hand => hsize hand.1), Nat.eq_zero_of_not_pos hsize, Nat.min_zero,
      Extent.positions_zero, List.append_nil]

/-- The stream never gets more bytes than its size. -/
theorem HasRun.length_positions_le (h : s.HasRun total length) : s.positions.length ≤ total := by
  have htotal := h.total_eq
  rw [h.positions_eq, List.length_append, Extent.length_positions]
  omega

/-- The first cluster block starts a run. -/
theorem start_addClusterBlock (size : Nat) {blockSize : Nat} (hblock : blockSize < 2 ^ 64)
    (offset : Int) (hoffset : 0 < offset) :
    ((start size).addClusterBlock blockSize offset).HasRun size blockSize ∧
      (start size).addClusterBlock blockSize offset =
        ⟨size, offset, toOff64 (offset + blockSize), ⟨[], []⟩⟩ := by
  have heq : (start size).addClusterBlock blockSize offset =
      ⟨size, offset, toOff64 (offset + blockSize), ⟨[], []⟩⟩ := by
    simp [addClusterBlock, start]
  rw [heq]
  exact ⟨⟨hoffset, rfl, hblock, by simp [positionsOf]⟩, rfl⟩

/-- A cluster block behind the end of the run ends the run and starts another. -/
theorem HasRun.add_behind (h : s.HasRun total length) {blockSize : Nat}
    (hblock : blockSize < 2 ^ 64) {offset : Int} (hoffset : 0 < offset)
    (hbehind : s.segmentEndOffset < offset) :
    let s' := s.addClusterBlock blockSize offset
    s'.HasRun total blockSize ∧ s'.segmentStartOffset = offset ∧
      s'.size = s.size - min length s.size ∧
      positionsOf s'.stream.segments = s.positions := by
  have hpos := h.start_pos
  have heq : s.addClusterBlock blockSize offset =
      { s.flush with
        segmentStartOffset := offset, segmentEndOffset := toOff64 (offset + blockSize) } := by
    have hne : s.segmentStartOffset ≠ 0 := by omega
    simp [addClusterBlock, hne, hbehind]
  have hsegments : positionsOf s.flush.stream.segments = s.positions := by
    rw [h.flush_segments, h.positions_eq]
  have htotal := h.total_eq
  rw [heq]
  refine ⟨⟨hoffset, rfl, hblock, ?_⟩, rfl, h.flush_size, hsegments⟩
  simp only [hsegments, h.flush_size, h.positions_eq, List.length_append, Extent.length_positions]
  omega

/-- Any other cluster block makes the run longer, wherever it starts. -/
theorem HasRun.add_merged (h : s.HasRun total length) {blockSize : Nat}
    (hblock : length + blockSize < 2 ^ 64) {offset : Int}
    (hmerged : offset ≤ s.segmentEndOffset) :
    let s' := s.addClusterBlock blockSize offset
    s'.HasRun total (length + blockSize) ∧ s'.segmentStartOffset = s.segmentStartOffset ∧
      s'.size = s.size ∧ s'.stream = s.stream := by
  have hpos := h.start_pos
  have heq : s.addClusterBlock blockSize offset =
      { s with segmentEndOffset := toOff64 (s.segmentEndOffset + blockSize) } := by
    have hne : s.segmentStartOffset ≠ 0 := by omega
    simp [addClusterBlock, hne, not_lt.mpr hmerged]
  rw [heq]
  refine ⟨⟨hpos, ?_, hblock, h.total_eq⟩, rfl, rfl, rfl⟩
  simp only [h.end_eq, toOff64]
  rw [Int.bmod_add_bmod, Nat.cast_add, Int.add_assoc]

/-- A cluster block adds to the bytes of the stream and changes none of them. -/
theorem HasRun.add (h : s.HasRun total length) {blockSize : Nat}
    (hblock : length + blockSize < 2 ^ 64) (offset : Int) (hoffset : 0 < offset) :
    ∃ length', length' ≤ length + blockSize ∧
      (s.addClusterBlock blockSize offset).HasRun total length' ∧
      s.positions <+: (s.addClusterBlock blockSize offset).positions := by
  by_cases hbehind : s.segmentEndOffset < offset
  · have hblock' : blockSize < 2 ^ 64 := by omega
    obtain ⟨hrun, _, _, hsegments⟩ := h.add_behind hblock' hoffset hbehind
    refine ⟨blockSize, by omega, hrun, ?_⟩
    rw [hrun.positions_eq, hsegments]
    exact List.prefix_append _ _
  · obtain ⟨hrun, hstart, hsize, hstream⟩ := h.add_merged hblock (not_lt.mp hbehind)
    refine ⟨length + blockSize, le_rfl, hrun, ?_⟩
    rw [hrun.positions_eq, h.positions_eq, hstart, hsize, hstream]
    obtain ⟨extra, hextra⟩ : ∃ extra, min (length + blockSize) s.size =
        min length s.size + extra := ⟨min (length + blockSize) s.size - min length s.size, by omega⟩
    rw [hextra, Extent.positions_add, ← List.append_assoc]
    exact List.prefix_append _ _

end DataStreamState

/-! ### The walk along a chain -/

/-- The cluster blocks of a chain of distinct clusters, taken one by one until
the size of the stream is used up. There is no state when one of the clusters
that are taken is not covered by the block tree. -/
def addChain (ioHandle : IoHandle) : List Nat → DataStreamState → Option DataStreamState
  | [], s => some s
  | c :: rest, s =>
    if s.size = 0 then some s
    else if CoversCluster ioHandle c then
      addChain ioHandle rest
        (s.addClusterBlock ioHandle.clusterBlockSize (clusterOffset ioHandle c))
    else none

theorem addChain_append {ioHandle : IoHandle} {xs ys : List Nat} {s : DataStreamState} :
    addChain ioHandle (xs ++ ys) s =
      (addChain ioHandle xs s).bind fun s' => addChain ioHandle ys s' := by
  induction xs generalizing s with
  | nil => rfl
  | cons c xs ih =>
    simp only [List.cons_append, addChain]
    by_cases hsize : s.size = 0
    · cases ys <;> simp [hsize, addChain]
    · by_cases hcovers : CoversCluster ioHandle c
      · simp only [hsize, hcovers, if_false, if_true]
        exact ih
      · simp [hsize, hcovers]

theorem visitChain_dataStreamVisitor (fs : FileSystem) (chain : List Nat) (s : DataStreamState) :
    visitChain fs.ioHandle (dataStreamVisitor fs) chain s = addChain fs.ioHandle chain s := by
  induction chain generalizing s with
  | nil => rfl
  | cons c chain ih => simp only [visitChain, addChain, dataStreamVisitor, decide_eq_true_eq, ← ih]

/-! ### Forward and backward jumps -/

section Jumps

variable {ioHandle : IoHandle}

theorem ClustersInVolume.block_lt {chain : List Nat} (h : ClustersInVolume ioHandle chain) {c : Nat}
    (hc : c ∈ chain) : ioHandle.clusterBlockSize < 2 ^ 63 := by
  obtain ⟨_, hpos, hend⟩ := h.offset hc
  have hmax : (int64Max : Int) = 2 ^ 63 - 1 := rfl
  omega

/-- Taking the clusters of a list one after the other adds to the bytes of the
stream and changes none of them. -/
theorem addChain_extends {chain : List Nat} {s s' : DataStreamState} {total length : Nat}
    (hvolume : ClustersInVolume ioHandle chain) (hrun : s.HasRun total length)
    (hlength : length + chain.length * ioHandle.clusterBlockSize < 2 ^ 64)
    (hadd : addChain ioHandle chain s = some s') :
    ∃ length', s'.HasRun total length' ∧ s.positions <+: s'.positions := by
  induction chain generalizing s length with
  | nil =>
    injection hadd with hadd
    exact ⟨length, hadd ▸ hrun, hadd ▸ List.prefix_rfl⟩
  | cons c chain ih =>
    simp only [addChain] at hadd
    split at hadd
    · injection hadd with hadd
      exact ⟨length, hadd ▸ hrun, hadd ▸ List.prefix_rfl⟩
    · split at hadd
      · obtain ⟨hoffset, hpos, _⟩ := hvolume.offset List.mem_cons_self
        have hsucc : (c :: chain).length * ioHandle.clusterBlockSize =
            chain.length * ioHandle.clusterBlockSize + ioHandle.clusterBlockSize := by
          rw [List.length_cons]
          ring
        have hblock : length + ioHandle.clusterBlockSize < 2 ^ 64 := by omega
        obtain ⟨length', hle, hrun', hinitial⟩ :=
          hrun.add hblock (clusterOffset ioHandle c) (by omega)
        obtain ⟨length'', hrun'', hinitial'⟩ :=
          ih (hvolume.of_subset (List.subset_cons_self _ _)) hrun' (by omega) hadd
        exact ⟨length'', hrun'', hinitial.trans hinitial'⟩
      · cases hadd

/-- The segments and the run are the cluster blocks that were taken, of which
`c` was the last. -/
structure Follows (ioHandle : IoHandle) (s : DataStreamState) (total length : Nat)
    (taken : List Nat) (c : Nat) : Prop where
  run : s.HasRun total length
  block_le : ioHandle.clusterBlockSize ≤ length
  length_le : length ≤ taken.length * ioHandle.clusterBlockSize
  content : positionsOf s.stream.segments ++ Extent.positions ⟨s.segmentStartOffset, length⟩ =
    chainPositions ioHandle taken
  end_eq : s.segmentStartOffset + length = clusterStart ioHandle c + ioHandle.clusterBlockSize

theorem Follows.closed_length {s : DataStreamState} {total length : Nat} {taken : List Nat}
    {c : Nat} (h : Follows ioHandle s total length taken c) :
    (positionsOf s.stream.segments).length + length =
      taken.length * ioHandle.clusterBlockSize := by
  have hlength := congrArg List.length h.content
  rwa [List.length_append, Extent.length_positions, length_chainPositions] at hlength

/-- As long as the blocks that were taken do not fill the stream, they are the
content of the stream, and a cluster with a greater number continues it. -/
theorem Follows.add {s : DataStreamState} {total length : Nat} {taken : List Nat} {c d : Nat}
    (h : Follows ioHandle s total length taken c) (hvolume : ClustersInVolume ioHandle [c, d])
    (htotal : taken.length * ioHandle.clusterBlockSize < total) (hcd : c < d)
    (hlength : (taken.length + 1) * ioHandle.clusterBlockSize < 2 ^ 64) :
    ∃ length', Follows ioHandle
      (s.addClusterBlock ioHandle.clusterBlockSize (clusterOffset ioHandle d)) total length'
      (taken ++ [d]) d := by
  obtain ⟨_, _, hcend⟩ := hvolume.offset (c := c) (by simp)
  obtain ⟨hoffset, hdpos, _⟩ := hvolume.offset (c := d) (by simp)
  have hstart := h.run.start_pos
  have hclosed := h.closed_length
  have htotalEq := h.run.total_eq
  have hendEq := h.end_eq
  have hsize : min length s.size = length := by omega
  have hend : s.segmentEndOffset = clusterStart ioHandle c + ioHandle.clusterBlockSize := by
    rw [h.run.end_eq, h.end_eq]
    exact toOff64_of_nonneg (by omega) hcend
  have hle : clusterStart ioHandle c + ioHandle.clusterBlockSize ≤ clusterStart ioHandle d := by
    have hmul : ((c : Int) + 1 - 2) * ioHandle.clusterBlockSize ≤
        ((d : Int) - 2) * ioHandle.clusterBlockSize :=
      mul_le_mul_of_nonneg_right (by omega) (by omega)
    have hsplit : ((c : Int) + 1 - 2) * ioHandle.clusterBlockSize =
        ((c : Int) - 2) * ioHandle.clusterBlockSize + ioHandle.clusterBlockSize := by ring
    unfold clusterStart
    omega
  have hsucc : (taken.length + 1) * ioHandle.clusterBlockSize =
      taken.length * ioHandle.clusterBlockSize + ioHandle.clusterBlockSize := by ring
  have hpositions : s.positions = chainPositions ioHandle taken := by
    rw [h.run.positions_eq, hsize, h.content]
  have hlast : chainPositions ioHandle [d] =
      Extent.positions ⟨clusterStart ioHandle d, ioHandle.clusterBlockSize⟩ := by
    simp [chainPositions]
  have hblock : ioHandle.clusterBlockSize < 2 ^ 64 := by omega
  have hblock' : length + ioHandle.clusterBlockSize < 2 ^ 64 := by omega
  by_cases hbehind : s.segmentEndOffset < clusterOffset ioHandle d
  · obtain ⟨hrun, hstart', _, hsegments⟩ :=
      h.run.add_behind hblock (by omega) hbehind
    refine ⟨ioHandle.clusterBlockSize, hrun, le_rfl, ?_, ?_, ?_⟩
    · rw [List.length_append, List.length_singleton]
      omega
    · rw [hsegments, hstart', hpositions, chainPositions_append, hlast, hoffset]
    · rw [hstart', hoffset]
  · have hmerged : clusterOffset ioHandle d ≤ s.segmentEndOffset := not_lt.mp hbehind
    have heq : clusterStart ioHandle d = s.segmentStartOffset + length := by omega
    obtain ⟨hrun, hstart', _, hstream⟩ :=
      h.run.add_merged hblock' hmerged
    refine ⟨length + ioHandle.clusterBlockSize, hrun, by omega, ?_, ?_, ?_⟩
    · rw [List.length_append, List.length_singleton]
      omega
    · rw [hstart', hstream, Extent.positions_add, ← List.append_assoc, h.content,
        chainPositions_append, hlast, heq]
    · rw [hstart', Nat.cast_add]
      omega

private theorem take_succ_getD {chain : List Nat} {i : Nat} (h : i < chain.length) :
    chain.take (i + 1) = chain.take i ++ [chain.getD i 0] := by
  rw [List.getD_eq_getElem _ _ h, List.take_append_getElem h]

private theorem drop_eq_getD_cons {chain : List Nat} {i : Nat} (h : i < chain.length) :
    chain.drop i = chain.getD i 0 :: chain.drop (i + 1) := by
  rw [List.getD_eq_getElem _ _ h, List.drop_eq_getElem_cons h]

private theorem getD_mem {chain : List Nat} {i : Nat} (h : i < chain.length) :
    chain.getD i 0 ∈ chain := by
  rw [List.getD_eq_getElem _ _ h]
  exact List.getElem_mem h

/-- The first clusters of a chain, as many as the stream needs at most, when
their numbers increase. -/
theorem follows_take {chain : List Nat} (size : Nat) (hvolume : ClustersInVolume ioHandle chain)
    (hroom : chain.length * ioHandle.clusterBlockSize < 2 ^ 64) (i : Nat) (hi : i < chain.length)
    (hsize : i * ioHandle.clusterBlockSize < size)
    (hforward : ∀ k < i, chain.getD k 0 < chain.getD (k + 1) 0)
    (hcovers : ∀ k ≤ i, CoversCluster ioHandle (chain.getD k 0)) :
    ∃ s length, addChain ioHandle (chain.take (i + 1)) (.start size) = some s ∧
      Follows ioHandle s size length (chain.take (i + 1)) (chain.getD i 0) := by
  induction i with
  | zero =>
    obtain ⟨hoffset, hpos, _⟩ := hvolume.offset (getD_mem hi)
    have hblock := hvolume.block_lt (getD_mem hi)
    have hlt : ioHandle.clusterBlockSize < 2 ^ 64 := by omega
    obtain ⟨hrun, heq⟩ := DataStreamState.start_addClusterBlock size hlt
      (clusterOffset ioHandle (chain.getD 0 0)) (by omega)
    refine ⟨_, ioHandle.clusterBlockSize, ?_, hrun, le_rfl, ?_, ?_, ?_⟩
    · rw [take_succ_getD hi, List.take_zero, List.nil_append, addChain, if_neg, if_pos]
      · rfl
      · exact hcovers 0 le_rfl
      · simp only [DataStreamState.start]
        omega
    · simp [take_succ_getD hi]
    · rw [heq, take_succ_getD hi, hoffset]
      simp [positionsOf, chainPositions]
    · rw [heq, hoffset]
  | succ i ih =>
    have hmul : (i + 1) * ioHandle.clusterBlockSize =
        i * ioHandle.clusterBlockSize + ioHandle.clusterBlockSize := by ring
    obtain ⟨s, length, hadd, hfollows⟩ := ih (by omega) (by omega)
      (fun k hk => hforward k (by omega)) (fun k hk => hcovers k (by omega))
    have hlength : (chain.take (i + 1)).length = i + 1 := by
      rw [List.length_take]
      omega
    have hpair : ClustersInVolume ioHandle [chain.getD i 0, chain.getD (i + 1) 0] := by
      refine hvolume.of_subset fun c hc => ?_
      rcases List.mem_cons.mp hc with rfl | hc
      · exact getD_mem (by omega)
      · rw [List.mem_singleton.mp hc]
        exact getD_mem hi
    have hle : (i + 1 + 1) * ioHandle.clusterBlockSize ≤
        chain.length * ioHandle.clusterBlockSize := Nat.mul_le_mul_right _ hi
    obtain ⟨length', hfollows'⟩ := hfollows.add hpair (by rw [hlength]; exact hsize)
      (hforward i (by omega)) (by rw [hlength]; omega)
    have hclosed := hfollows.closed_length
    have htotal := hfollows.run.total_eq
    rw [hlength] at hclosed
    refine ⟨_, length', ?_, take_succ_getD hi ▸ hfollows'⟩
    rw [take_succ_getD hi, addChain_append, hadd, Option.bind_some, addChain, if_neg (by omega),
      if_pos (hcovers (i + 1) le_rfl)]
    rfl

/-- The stream is complete: what is left of the chain cannot change it. The
clusters that are still taken are those before the first one that starts behind
the end of the run, which ends in 64 bits. -/
theorem addChain_rest {rest : List Nat} {s : DataStreamState} {total length : Nat} (base : Int)
    (t : Nat) (hvolume : ClustersInVolume ioHandle rest) (hrun : s.HasRun total length)
    (hlength : length + rest.length * ioHandle.clusterBlockSize < 2 ^ 64)
    (hsize : s.size ≠ 0) (hfull : s.size ≤ length)
    (hend : s.segmentEndOffset = toOff64 (base + (t * ioHandle.clusterBlockSize : Nat))) :
    (∃ s', addChain ioHandle rest s = some s') ↔
      ∀ j < rest.length,
        (∀ k < j, clusterOffset ioHandle (rest.getD k 0) ≤
          toOff64 (base + ((t + k) * ioHandle.clusterBlockSize : Nat))) →
        CoversCluster ioHandle (rest.getD j 0) := by
  induction rest generalizing s length t with
  | nil => simp [addChain]
  | cons c rest ih =>
    obtain ⟨hoffset, hpos, _⟩ := hvolume.offset List.mem_cons_self
    have hsucc : (c :: rest).length * ioHandle.clusterBlockSize =
        rest.length * ioHandle.clusterBlockSize + ioHandle.clusterBlockSize := by
      rw [List.length_cons]
      ring
    have hblock : ioHandle.clusterBlockSize < 2 ^ 64 := by omega
    have hblock' : length + ioHandle.clusterBlockSize < 2 ^ 64 := by omega
    rw [addChain, if_neg hsize]
    by_cases hcovers : CoversCluster ioHandle c
    · rw [if_pos hcovers]
      by_cases hbehind : s.segmentEndOffset < clusterOffset ioHandle c
      · -- the run ends here, and with it the stream
        obtain ⟨_, _, hsize', _⟩ := hrun.add_behind hblock (by omega) hbehind
        have hzero : (s.addClusterBlock ioHandle.clusterBlockSize
            (clusterOffset ioHandle c)).size = 0 := by omega
        constructor
        · intro _ j hj htaken
          cases j with
          | zero => exact hcovers
          | succ j =>
            have hfirst := htaken 0 (by omega)
            rw [Nat.add_zero, ← hend] at hfirst
            simp only [List.getD_cons_zero] at hfirst
            omega
        · intro _
          cases rest with
          | nil => exact ⟨_, rfl⟩
          | cons d rest => exact ⟨_, by rw [addChain, if_pos hzero]⟩
      · obtain ⟨hrun', hstart', hsize', _⟩ :=
          hrun.add_merged hblock' (not_lt.mp hbehind)
        have hend' : (s.addClusterBlock ioHandle.clusterBlockSize
            (clusterOffset ioHandle c)).segmentEndOffset =
              toOff64 (base + ((t + 1) * ioHandle.clusterBlockSize : Nat)) := by
          rw [hrun'.end_eq, hstart']
          have hstep : toOff64 (s.segmentStartOffset + (length + ioHandle.clusterBlockSize : Nat)) =
              toOff64 (s.segmentEndOffset + ioHandle.clusterBlockSize) := by
            rw [hrun.end_eq]
            simp only [toOff64]
            rw [Int.bmod_add_bmod, Nat.cast_add, Int.add_assoc]
          rw [hstep, hend]
          simp only [toOff64]
          rw [Int.bmod_add_bmod]
          congr 1
          push_cast
          ring
        rw [ih (t + 1) (hvolume.of_subset (List.subset_cons_self _ _)) hrun' (by omega)
          (by rw [hsize']; exact hsize) (by rw [hsize']; omega) hend']
        have hmerged : clusterOffset ioHandle c ≤
            toOff64 (base + (t * ioHandle.clusterBlockSize : Nat)) := by
          rw [← hend]
          exact not_lt.mp hbehind
        constructor
        · intro h j hj htaken
          cases j with
          | zero => exact hcovers
          | succ j =>
            refine h j (by simpa using hj) fun k hk => ?_
            have hk' := htaken (k + 1) (by omega)
            rw [List.getD_cons_succ] at hk'
            rwa [Nat.add_right_comm, Nat.add_assoc t k 1]
        · intro h j hj htaken
          refine h (j + 1) (by simpa using hj) fun k hk => ?_
          cases k with
          | zero => exact hmerged
          | succ k =>
            have hk' := htaken k (by omega)
            rw [List.getD_cons_succ]
            rwa [Nat.add_right_comm, Nat.add_assoc t k 1] at hk'
    · rw [if_neg hcovers]
      constructor
      · rintro ⟨s', hs'⟩
        cases hs'
      · intro h
        exact absurd (h 0 (by simp) fun k hk => absurd hk (Nat.not_lt_zero k)) hcovers

end Jumps

/-! ### The content of a file -/

/-- The number of clusters that a stream needs. -/
def clustersForSize (ioHandle : IoHandle) (size : Nat) : Nat :=
  (size + ioHandle.clusterBlockSize - 1) / ioHandle.clusterBlockSize

/-- The call succeeds, and the segments are the first bytes of the cluster
blocks of the chain. -/
def StreamsContent (fs : FileSystem) (clusterNumber : Nat) (chain : List Nat) (size : Nat) :
    Prop :=
  ∃ stream, getDataStream fs clusterNumber size = .ok stream ∧
    positionsOf stream.segments = (chainPositions fs.ioHandle chain).take size

/-- The loop comes to cluster `j` of the chain. The clusters that the stream
needs are always taken. After them the loop goes on up to the first cluster that
starts behind the end of the last run, which grows with every cluster. -/
def TakesCluster (ioHandle : IoHandle) (chain : List Nat) (needed j : Nat) : Prop :=
  ∀ k, needed ≤ k → k < j →
    clusterOffset ioHandle (chain.getD k 0) ≤
      toOff64 (clusterOffset ioHandle (chain.getD (needed - 1) 0) +
        ((k - needed + 1) * ioHandle.clusterBlockSize : Nat))

section Content

variable {fs : FileSystem} {last : Nat} {chain : List Nat} {size : Nat}

private theorem clustersForSize_spec {ioHandle : IoHandle} (hblock : 0 < ioHandle.clusterBlockSize)
    (hpos : 0 < size) (hle : size ≤ chain.length * ioHandle.clusterBlockSize) :
    ∃ m, clustersForSize ioHandle size = m + 1 ∧ m < chain.length ∧
      m * ioHandle.clusterBlockSize < size ∧ size ≤ (m + 1) * ioHandle.clusterBlockSize := by
  unfold clustersForSize
  have hdiv := Nat.div_add_mod (size + ioHandle.clusterBlockSize - 1) ioHandle.clusterBlockSize
  have hmod := Nat.mod_lt (size + ioHandle.clusterBlockSize - 1) hblock
  set q := (size + ioHandle.clusterBlockSize - 1) / ioHandle.clusterBlockSize with hq
  have hqpos : 0 < q := Nat.div_pos (by omega) hblock
  obtain ⟨m, hm⟩ : ∃ m, q = m + 1 := ⟨q - 1, by omega⟩
  rw [hm, Nat.mul_comm] at hdiv
  have hsucc : (m + 1) * ioHandle.clusterBlockSize =
      m * ioHandle.clusterBlockSize + ioHandle.clusterBlockSize := by ring
  refine ⟨m, hm, ?_, by omega, by omega⟩
  by_contra hge
  have hmul : chain.length * ioHandle.clusterBlockSize ≤ m * ioHandle.clusterBlockSize :=
    Nat.mul_le_mul_right _ (by omega)
  omega

/-- The walk of the call, when its arguments pass the checks before the loop. -/
theorem streamsContent_iff_addChain {c : Nat}
    (hlast : lastClusterNumber fs.ioHandle.fileSystemFormat = .ok last)
    (htotal : hasTotalNumberOfClusters fs.ioHandle = true)
    (hvolume : ClustersInVolume fs.ioHandle chain)
    (hchain : IsChain fs.allocationTable last c chain) (hnodup : chain.Nodup)
    (hsize : 0 < fs.ioHandle.volumeSize) :
    StreamsContent fs c chain size ↔
      ∃ s, addChain fs.ioHandle chain (.start size) = some s ∧
        s.positions = (chainPositions fs.ioHandle chain).take size := by
  obtain ⟨tree, htree, hempty⟩ :=
    BlockTree.create_standsFor hvolume.block_pos hsize hvolume.volume_le
  have hwalk (s : DataStreamState) :=
    walkChain_eq_ok_iff (dataStreamVisitor fs) hempty hchain hvolume hnodup (.start size) s
  simp only [visitChain_dataStreamVisitor] at hwalk
  unfold StreamsContent
  rw [getDataStream_eq_walk hlast htree, if_pos htotal]
  constructor
  · rintro ⟨stream, hstream, hpositions⟩
    obtain ⟨s, hs, rfl⟩ := map_eq_ok_iff.mp hstream
    exact ⟨s, (hwalk s).mp hs, hpositions⟩
  · rintro ⟨s, hs, hpositions⟩
    exact ⟨s.finish, map_eq_ok_iff.mpr ⟨s, (hwalk s).mpr hs, rfl⟩, hpositions⟩

/-- There is no stream when a cluster that it needs is not covered. -/
theorem addChain_eq_none (hvolume : ClustersInVolume fs.ioHandle chain)
    (hroom : chain.length * fs.ioHandle.clusterBlockSize < 2 ^ 64) {m : Nat}
    (hm : m < chain.length) (hlt : m * fs.ioHandle.clusterBlockSize < size)
    (hforward : ∀ i < m, chain.getD i 0 < chain.getD (i + 1) 0) {k : Nat} (hkm : k ≤ m)
    (hknot : ¬ CoversCluster fs.ioHandle (chain.getD k 0)) :
    addChain fs.ioHandle chain (.start size) = none := by
  induction k using Nat.strong_induction_on with
  | _ k ih =>
    by_cases hbefore : ∀ i < k, CoversCluster fs.ioHandle (chain.getD i 0)
    · have hdrop := drop_eq_getD_cons (show k < chain.length by omega)
      rw [← List.take_append_drop k chain, hdrop, addChain_append]
      cases k with
      | zero =>
        rw [List.take_zero, addChain, Option.bind_some, addChain, if_neg, if_neg hknot]
        simp only [DataStreamState.start]
        omega
      | succ i =>
        have hmul : (i + 1) * fs.ioHandle.clusterBlockSize ≤ m * fs.ioHandle.clusterBlockSize :=
          Nat.mul_le_mul_right _ hkm
        have hsucc : (i + 1) * fs.ioHandle.clusterBlockSize =
            i * fs.ioHandle.clusterBlockSize + fs.ioHandle.clusterBlockSize := by ring
        obtain ⟨s, length, hadd, hfollows⟩ := follows_take size hvolume hroom i (by omega)
          (by omega) (fun j hj => hforward j (by omega)) (fun j hj => hbefore j (by omega))
        have hclosed := hfollows.closed_length
        have htotal := hfollows.run.total_eq
        have hblockLe := hfollows.block_le
        have hlength : (chain.take (i + 1)).length = i + 1 := by
          rw [List.length_take]
          omega
        rw [hlength] at hclosed
        rw [hadd, Option.bind_some, addChain, if_neg (by omega), if_neg hknot]
    · push Not at hbefore
      obtain ⟨i, hik, hinot⟩ := hbefore
      exact ih i hik (by omega) hinot

/-- When the numbers of the clusters that the stream needs increase, the stream
is the content, unless the walk comes to a cluster that is not covered. -/
theorem addChain_content_of_forward (hvolume : ClustersInVolume fs.ioHandle chain)
    (hroom : chain.length * fs.ioHandle.clusterBlockSize < 2 ^ 64) {m : Nat}
    (hm : m < chain.length) (hlt : m * fs.ioHandle.clusterBlockSize < size)
    (hle : size ≤ (m + 1) * fs.ioHandle.clusterBlockSize)
    (hforward : ∀ i < m, chain.getD i 0 < chain.getD (i + 1) 0) :
    (∃ s, addChain fs.ioHandle chain (.start size) = some s ∧
        s.positions = (chainPositions fs.ioHandle chain).take size) ↔
      ∀ j < chain.length, TakesCluster fs.ioHandle chain (m + 1) j →
        CoversCluster fs.ioHandle (chain.getD j 0) := by
  by_cases hcovers : ∀ k ≤ m, CoversCluster fs.ioHandle (chain.getD k 0)
  · obtain ⟨s, length, hadd, hfollows⟩ := follows_take size hvolume hroom m hm hlt hforward hcovers
    have hlength : (chain.take (m + 1)).length = m + 1 := by
      rw [List.length_take]
      omega
    have hclosed := hfollows.closed_length
    have htotal := hfollows.run.total_eq
    rw [hlength] at hclosed
    have hrest : (chain.drop (m + 1)).length = chain.length - (m + 1) := List.length_drop
    have hrestMul : (m + 1) * fs.ioHandle.clusterBlockSize +
        (chain.drop (m + 1)).length * fs.ioHandle.clusterBlockSize =
          chain.length * fs.ioHandle.clusterBlockSize := by
      rw [hrest, ← Nat.add_mul]
      congr 1
      omega
    have hlengthLe := hfollows.length_le
    have hblockLe := hfollows.block_le
    have hsucc : (m + 1) * fs.ioHandle.clusterBlockSize =
        m * fs.ioHandle.clusterBlockSize + fs.ioHandle.clusterBlockSize := by ring
    rw [hlength] at hlengthLe
    have hsplit : addChain fs.ioHandle chain (.start size) =
        addChain fs.ioHandle (chain.drop (m + 1)) s := by
      conv_lhs => rw [← List.take_append_drop (m + 1) chain]
      rw [addChain_append, hadd, Option.bind_some]
    have hsub : ClustersInVolume fs.ioHandle (chain.drop (m + 1)) :=
      hvolume.of_subset (List.drop_subset _ _)
    obtain ⟨hoffset, _, hblockEnd⟩ := hvolume.offset (getD_mem hm)
    have hend : s.segmentEndOffset = toOff64 (clusterOffset fs.ioHandle (chain.getD m 0) +
        (1 * fs.ioHandle.clusterBlockSize : Nat)) := by
      rw [hfollows.run.end_eq, hfollows.end_eq, hoffset, Nat.one_mul]
    have hcontent : s.positions = (chainPositions fs.ioHandle chain).take size := by
      rw [hfollows.run.positions_eq, ← List.take_append_drop (m + 1) chain, chainPositions_append,
        List.take_append_of_le_length (by rw [length_chainPositions, hlength]; exact hle),
        ← hfollows.content]
      have hsum : size = (positionsOf s.stream.segments).length + s.size := htotal.symm
      rw [hsum, List.take_length_add_append, Extent.take_positions]
    have hstay (s' : DataStreamState)
        (hs' : addChain fs.ioHandle (chain.drop (m + 1)) s = some s') :
        s'.positions = (chainPositions fs.ioHandle chain).take size := by
      obtain ⟨length', hrun', hinitial⟩ := addChain_extends hsub hfollows.run (by omega) hs'
      have hle' := hrun'.length_positions_le
      have hfull : s.positions.length = size := by
        rw [hcontent, List.length_take, length_chainPositions]
        have hmul : (m + 1) * fs.ioHandle.clusterBlockSize ≤
            chain.length * fs.ioHandle.clusterBlockSize := Nat.mul_le_mul_right _ hm
        omega
      rw [← hcontent]
      exact (hinitial.eq_of_length_le (by omega)).symm
    rw [hsplit]
    have hiff := addChain_rest (clusterOffset fs.ioHandle (chain.getD m 0)) 1 hsub hfollows.run
      (by omega) (by omega) (by omega) hend
    have hgetD (k : Nat) : (chain.drop (m + 1)).getD k 0 = chain.getD (m + 1 + k) 0 := by
      simp [List.getD_eq_getElem?_getD]
    constructor
    · rintro ⟨s', hs', _⟩ j hj htakes
      by_cases hjm : j ≤ m
      · exact hcovers j hjm
      · have hj' := hiff.mp ⟨s', hs'⟩ (j - (m + 1)) (by omega) fun k hk => by
          have hk' := htakes (m + 1 + k) (by omega) (by omega)
          rw [hgetD]
          rw [show m + 1 + k - (m + 1) + 1 = 1 + k by omega] at hk'
          exact hk'
        rwa [hgetD, show m + 1 + (j - (m + 1)) = j by omega] at hj'
    · intro h
      obtain ⟨s', hs'⟩ := hiff.mpr fun j hj htakes => by
        rw [hgetD]
        refine h (m + 1 + j) (by omega) fun k hk hkj => ?_
        have hk' := htakes (k - (m + 1)) (by omega)
        rw [hgetD, show m + 1 + (k - (m + 1)) = k by omega] at hk'
        rw [show k - (m + 1) + 1 = 1 + (k - (m + 1)) by omega]
        exact hk'
      exact ⟨s', hs', hstay s' hs'⟩
  · -- one of the clusters that the stream needs is not covered
    push Not at hcovers
    obtain ⟨k, hkm, hknot⟩ := hcovers
    rw [addChain_eq_none hvolume hroom hm hlt hforward hkm hknot]
    constructor
    · rintro ⟨s, hs, _⟩
      cases hs
    · intro h
      exact absurd (h k (by omega) fun j hj hjk => by omega) hknot

/-- A cluster that the stream needs and whose number is less than the one before
it is merged into the run: the bytes of the stream at its place are those that
follow the run in the volume. -/
theorem addChain_content_of_backward (hvolume : ClustersInVolume fs.ioHandle chain)
    (hnodup : chain.Nodup) (hroom : chain.length * fs.ioHandle.clusterBlockSize < 2 ^ 64) {m : Nat}
    (hm : m < chain.length) (hlt : m * fs.ioHandle.clusterBlockSize < size)
    (hbackward : ∃ i < m, ¬ chain.getD i 0 < chain.getD (i + 1) 0) :
    ¬ ∃ s, addChain fs.ioHandle chain (.start size) = some s ∧
      s.positions = (chainPositions fs.ioHandle chain).take size := by
  rintro ⟨s', hs', hpositions⟩
  classical
  obtain ⟨him, hnot⟩ := Nat.find_spec hbackward
  set i := Nat.find hbackward with hi
  have hforward : ∀ k < i, chain.getD k 0 < chain.getD (k + 1) 0 := by
    intro k hk
    by_contra hknot
    exact Nat.find_min hbackward hk ⟨by omega, hknot⟩
  have hmul : (i + 1) * fs.ioHandle.clusterBlockSize ≤ m * fs.ioHandle.clusterBlockSize :=
    Nat.mul_le_mul_right _ him
  have hsucc : (i + 1) * fs.ioHandle.clusterBlockSize =
      i * fs.ioHandle.clusterBlockSize + fs.ioHandle.clusterBlockSize := by ring
  have hlength : (chain.take (i + 1)).length = i + 1 := by
    rw [List.length_take]
    omega
  have hdrop : chain.drop (i + 1) = chain.getD (i + 1) 0 :: chain.drop (i + 1 + 1) :=
    drop_eq_getD_cons (by omega)
  have hless : chain.getD (i + 1) 0 < chain.getD i 0 := by
    have hne : chain.getD i 0 ≠ chain.getD (i + 1) 0 := by
      rw [List.getD_eq_getElem _ _ (show i < chain.length by omega),
        List.getD_eq_getElem _ _ (show i + 1 < chain.length by omega)]
      intro heq
      have := (hnodup.getElem_inj_iff).mp heq
      omega
    omega
  by_cases hcovers : ∀ k ≤ i, CoversCluster fs.ioHandle (chain.getD k 0)
  · obtain ⟨s, length, hadd, hfollows⟩ := follows_take size hvolume hroom i (by omega)
      (by omega) hforward hcovers
    have hclosed := hfollows.closed_length
    have htotal := hfollows.run.total_eq
    have hlengthLe := hfollows.length_le
    rw [hlength] at hclosed hlengthLe
    obtain ⟨hoffset, _, hblockEnd⟩ := hvolume.offset (getD_mem (show i < chain.length by omega))
    obtain ⟨hoffset', _, _⟩ := hvolume.offset (getD_mem (show i + 1 < chain.length by omega))
    have hend : s.segmentEndOffset =
        clusterStart fs.ioHandle (chain.getD i 0) + fs.ioHandle.clusterBlockSize := by
      rw [hfollows.run.end_eq, hfollows.end_eq]
      have hpos := hfollows.run.start_pos
      have hendEq := hfollows.end_eq
      exact toOff64_of_nonneg (by omega) hblockEnd
    have hstartLt : clusterStart fs.ioHandle (chain.getD (i + 1) 0) <
        clusterStart fs.ioHandle (chain.getD i 0) + fs.ioHandle.clusterBlockSize := by
      have hle : ((chain.getD (i + 1) 0 : Nat) - 2 : Int) * fs.ioHandle.clusterBlockSize ≤
          ((chain.getD i 0 : Nat) - 2 : Int) * fs.ioHandle.clusterBlockSize :=
        mul_le_mul_of_nonneg_right (by omega) (by omega)
      have hblock := hvolume.block_pos
      unfold clusterStart
      omega
    have hrestMul : (i + 1 + 1) * fs.ioHandle.clusterBlockSize +
        (chain.drop (i + 1 + 1)).length * fs.ioHandle.clusterBlockSize =
          chain.length * fs.ioHandle.clusterBlockSize := by
      rw [List.length_drop, ← Nat.add_mul]
      congr 1
      omega
    have hsucc' : (i + 1 + 1) * fs.ioHandle.clusterBlockSize =
        (i + 1) * fs.ioHandle.clusterBlockSize + fs.ioHandle.clusterBlockSize := by ring
    rw [← List.take_append_drop (i + 1) chain, addChain_append, hadd, Option.bind_some, hdrop,
      addChain, if_neg (by omega)] at hs'
    split at hs'
    · have hroom' : length + fs.ioHandle.clusterBlockSize < 2 ^ 64 := by omega
      have hmerges : clusterOffset fs.ioHandle (chain.getD (i + 1) 0) ≤ s.segmentEndOffset := by
        omega
      obtain ⟨hrun, hstart, hsize, hstream⟩ :=
        hfollows.run.add_merged hroom' hmerges
      obtain ⟨_, hrun', hinitial⟩ :=
        addChain_extends (hvolume.of_subset (List.drop_subset _ _)) hrun (by omega) hs'
      have hblock := hvolume.block_pos
      -- the byte at the place of the backward cluster
      have hmerged : (s.addClusterBlock fs.ioHandle.clusterBlockSize (clusterOffset fs.ioHandle
          (chain.getD (i + 1) 0))).positions[(i + 1) * fs.ioHandle.clusterBlockSize]? =
            some (s.segmentStartOffset + length) := by
        rw [hrun.positions_eq, hstart, hsize, hstream, ← hclosed,
          List.getElem?_append_right (Nat.le_add_right _ _), Nat.add_sub_cancel_left]
        exact Extent.getElem?_positions (by omega)
      have hactual : s'.positions[(i + 1) * fs.ioHandle.clusterBlockSize]? =
          some (s.segmentStartOffset + length) := by
        obtain ⟨extra, hextra⟩ := hinitial
        rw [← hextra, List.getElem?_append_left (List.getElem?_eq_some_iff.mp hmerged).1, hmerged]
      have hexpected : ((chainPositions fs.ioHandle chain).take size)[
          (i + 1) * fs.ioHandle.clusterBlockSize]? =
            some (clusterStart fs.ioHandle (chain.getD (i + 1) 0)) := by
        rw [List.getElem?_take_of_lt (by omega), ← List.take_append_drop (i + 1) chain, hdrop,
          chainPositions_append,
          List.getElem?_append_right (by rw [length_chainPositions, hlength]),
          length_chainPositions, hlength, Nat.sub_self]
        simp only [chainPositions, List.flatMap_cons]
        rw [List.getElem?_append_left (by rw [Extent.length_positions]; exact hblock),
          Extent.getElem?_positions hblock, Nat.cast_zero, Int.add_zero]
        simp [List.getD_eq_getElem?_getD, show min (i + 1) chain.length = i + 1 by omega]
      rw [hpositions, hexpected] at hactual
      injection hactual with hactual
      have hendEq := hfollows.end_eq
      omega
    · cases hs'
  · push Not at hcovers
    obtain ⟨k, hki, hknot⟩ := hcovers
    rw [addChain_eq_none hvolume hroom (m := i) (by omega) (by omega) hforward hki hknot] at hs'
    cases hs'

/-- For a chain of distinct clusters in the table and in the volume, and a size
that the chain has room for: the stream is the content of the file exactly when
the number of clusters passes its check, the volume size is an offset, the
numbers of the clusters that the stream needs increase, and the block tree
covers the clusters that the loop comes to. -/
theorem streamsContent_iff {c : Nat}
    (hlast : lastClusterNumber fs.ioHandle.fileSystemFormat = .ok last)
    (hfirst : 0 < fs.ioHandle.firstClusterOffset) (hblock : 0 < fs.ioHandle.clusterBlockSize)
    (hchain : IsChain fs.allocationTable last c chain) (hnodup : chain.Nodup)
    (hin : ∀ c ∈ chain, InVolume fs.ioHandle c) (hpos : 0 < size)
    (hle : size ≤ chain.length * fs.ioHandle.clusterBlockSize) :
    StreamsContent fs c chain size ↔
      hasTotalNumberOfClusters fs.ioHandle = true ∧ fs.ioHandle.volumeSize ≤ int64Max ∧
        (∀ i, i + 1 < clustersForSize fs.ioHandle size →
          chain.getD i 0 < chain.getD (i + 1) 0) ∧
        ∀ j < chain.length, TakesCluster fs.ioHandle chain (clustersForSize fs.ioHandle size) j →
          CoversCluster fs.ioHandle (chain.getD j 0) := by
  by_cases htotal : hasTotalNumberOfClusters fs.ioHandle = true
  · by_cases hmax : fs.ioHandle.volumeSize ≤ int64Max
    · have hvolume : ClustersInVolume fs.ioHandle chain := by
        refine ⟨hfirst, hmax, hblock, fun d hd => ⟨hin d hd, ?_⟩⟩
        have hlt := (hchain.mem hd).2.2
        have hlength := fs.allocationTable.length_le
        have hmaximum : maximumNumberOfClustersInFat = 67108864 := rfl
        simp only [AllocationTable.numberOfClusterNumbers] at hlt
        omega
      have hroom := length_mul_le_volumeSize hfirst hblock hnodup hin
      have hint : int64Max = 2 ^ 63 - 1 := rfl
      obtain ⟨m, hm, hmlt, hlower, hupper⟩ := clustersForSize_spec hblock hpos hle
      have hvolumePos : 0 < fs.ioHandle.volumeSize := by omega
      rw [streamsContent_iff_addChain hlast htotal hvolume hchain hnodup hvolumePos, hm]
      by_cases hforward : ∀ i < m, chain.getD i 0 < chain.getD (i + 1) 0
      · rw [addChain_content_of_forward hvolume (by omega) hmlt hlower hupper hforward]
        constructor
        · intro h
          exact ⟨htotal, hmax, fun i hi => hforward i (by omega), h⟩
        · rintro ⟨_, _, _, h⟩
          exact h
      · have hbackward : ∃ i < m, ¬ chain.getD i 0 < chain.getD (i + 1) 0 := by
          push Not at hforward
          obtain ⟨i, hi, hge⟩ := hforward
          exact ⟨i, hi, not_lt.mpr hge⟩
        constructor
        · intro h
          exact absurd h
            (addChain_content_of_backward hvolume hnodup (by omega) hmlt hlower hbackward)
        · rintro ⟨_, _, h, _⟩
          exact absurd (fun i hi => h i (by omega)) hforward
    · constructor
      · rintro ⟨stream, hstream, _⟩
        obtain ⟨e, he⟩ : ∃ e, BlockTree.create fs.ioHandle.volumeSize
            fs.ioHandle.clusterBlockSize = .error e :=
          BlockTree.create_error fun h => hmax h.2.2
        simp only [getDataStream, hlast, htotal, he, if_true, bind, Except.bind] at hstream
        cases hstream
      · rintro ⟨_, h, _⟩
        exact absurd h hmax
  · constructor
    · rintro ⟨stream, hstream, _⟩
      simp only [getDataStream, hlast, htotal, bind, Except.bind] at hstream
      cases hstream
    · rintro ⟨h, _⟩
      exact absurd h htotal

end Content

/-- A FAT-16 file system with a file of the clusters 5 and 3, in this order. -/
def backwardFileSystem : FileSystem where
  ioHandle :=
    { volumeSize := 5120
      fileSystemFormat := .fat16
      bytesPerSector := 512
      clusterBlockSize := 512
      totalNumberOfClusters := 6
      rootDirectoryOffset := 512
      firstClusterOffset := 1024 }
  allocationTable := ⟨[0xfff8, 0xffff, 0, 0xffff, 0, 3], by decide, by decide, by decide⟩
  reversedAllocationTable := none

theorem isChain_backwardFileSystem :
    IsChain backwardFileSystem.allocationTable 0xfff0 5 [5, 3] := by
  refine .linked (by decide) (by decide) (show _ = Except.ok 3 from rfl) ?_
  refine .linked (by decide) (by decide) (show _ = Except.ok 0xffff from rfl) ?_
  exact .ended (by decide)

/-- A file of the single cluster 3. -/
theorem streamsContent_iff_single_cluster :
    StreamsContent backwardFileSystem 3 [3] 512 ↔
      hasTotalNumberOfClusters backwardFileSystem.ioHandle = true ∧
        backwardFileSystem.ioHandle.volumeSize ≤ int64Max ∧
        (∀ i, i + 1 < clustersForSize backwardFileSystem.ioHandle 512 →
          [3].getD i 0 < [3].getD (i + 1) 0) ∧
        ∀ j < [3].length, TakesCluster backwardFileSystem.ioHandle [3]
            (clustersForSize backwardFileSystem.ioHandle 512) j →
          CoversCluster backwardFileSystem.ioHandle ([3].getD j 0) :=
  streamsContent_iff (show lastClusterNumber .fat16 = .ok 0xfff0 from rfl) (by decide) (by decide)
    (.linked (by decide) (by decide) (show _ = Except.ok 0xffff from rfl) (.ended (by decide)))
    (by decide) (by decide) (by decide) (by decide)

/-- The second half of the file is in cluster 3, at 1536. The segment goes on
behind cluster 5, at 3072. -/
theorem getDataStream_backward :
    IsChain backwardFileSystem.allocationTable 0xfff0 5 [5, 3] ∧
      (∀ c ∈ [5, 3], InVolume backwardFileSystem.ioHandle c) ∧
      getDataStream backwardFileSystem 5 1024 = .ok ⟨[⟨2560, 1024⟩], [⟨2560, 1024⟩]⟩ ∧
      ¬ StreamsContent backwardFileSystem 5 [5, 3] 1024 := by
  have hstream : getDataStream backwardFileSystem 5 1024 =
      .ok ⟨[⟨2560, 1024⟩], [⟨2560, 1024⟩]⟩ := by decide +kernel
  refine ⟨isChain_backwardFileSystem, by decide, hstream, ?_⟩
  rintro ⟨stream, hok, hpositions⟩
  rw [hstream] at hok
  injection hok with hok
  have hbyte := congrArg (·[512]?) hpositions
  simp only [← hok, positionsOf, List.flatMap_cons, List.flatMap_nil, List.append_nil] at hbyte
  rw [Extent.getElem?_positions (by decide), List.getElem?_take_of_lt (by decide)] at hbyte
  simp only [chainPositions, List.flatMap_cons, List.flatMap_nil, List.append_nil] at hbyte
  rw [List.getElem?_append_right (by rw [Extent.length_positions]; decide),
    Extent.length_positions, Extent.getElem?_positions (by decide)] at hbyte
  exact absurd hbyte (by decide)

end FsFat
