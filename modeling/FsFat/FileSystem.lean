import FsFat.ClusterChain
import FsFat.Directory

/-!
The file system: `libfsfat_file_system.c`, the functions that read directories
and get data streams. Both walk along a chain of clusters, and every such walk
is bounded by the number of blocks of the volume.
-/

namespace FsFat

/-! ### Directories -/

/-- What `libfsfat_file_system_read_directory` does with a cluster. The value is
the state of the directory and the variable `result`, which is zero before the
first entry and after a terminator; the loop ends when it is zero. -/
def readDirectoryVisitor (fs : FileSystem) (image : List UInt8) :
    ChainVisitor (DirectoryReadState × Bool) where
  finished _ := false
  visit offset value :=
    let endOffset := toOff64 (offset + fs.ioHandle.clusterBlockSize)
    let count := numberOfEntriesBetween offset endOffset
    match readEntries image fs.ioHandle.fileSystemFormat DirectoryReadState.processEntry count
        offset value.1 with
    | .error e => .error e
    | .ok (s, terminated) =>
      let result := if count = 0 then value.2 else !terminated
      .ok ((s, result), !result)

/-- `libfsfat_file_system_read_directory`. -/
def readDirectory (fs : FileSystem) (image : List UInt8) (clusterNumber : Nat) :
    Except Error Directory := do
  let last ← lastClusterNumber fs.ioHandle.fileSystemFormat
  let tree ← BlockTree.create fs.ioHandle.volumeSize fs.ioHandle.clusterBlockSize
  let (s, _) ←
    (walkChain fs last (readDirectoryVisitor fs image) tree clusterNumber (.start, false)).2
  pure s.directory

/-- `libfsfat_file_system_read_directory_by_range`. -/
def readDirectoryByRange (fs : FileSystem) (image : List UInt8) (fileOffset : Int) (size : Nat) :
    Except Error Directory := do
  let endOffset := toOff64 (fileOffset + size)
  let (s, _) ← readEntries image fs.ioHandle.fileSystemFormat
    DirectoryReadState.processEntryByRange (numberOfEntriesBetween fileOffset endOffset) fileOffset
    .start
  pure s.directory

/-- `libfsfat_file_system_read_root_directory`. -/
def readRootDirectory (fs : FileSystem) (image : List UInt8) (fileOffset : Int) (size : Nat)
    (clusterNumber : Nat) : Except Error Directory :=
  if size > 0 then readDirectoryByRange fs image fileOffset size
  else readDirectory fs image clusterNumber

/-! ### Data streams -/

/-- `libfsfat_extent_t`, and a segment of a data stream. -/
structure Extent where
  offset : Int
  size : Nat
  deriving DecidableEq, Repr

/-- The extents and the segments that `libfsfat_file_system_get_data_stream`
appends, in this order. -/
structure DataStream where
  extents : List Extent
  segments : List Extent
  deriving DecidableEq, Repr

/-- The variables of the loop of `libfsfat_file_system_get_data_stream`. A
segment start offset of zero says that there is no segment. -/
structure DataStreamState where
  size : Nat
  segmentStartOffset : Int
  segmentEndOffset : Int
  stream : DataStream
  deriving DecidableEq, Repr

namespace DataStreamState

def start (size : Nat) : DataStreamState where
  size := size
  segmentStartOffset := 0
  segmentEndOffset := 0
  stream := ⟨[], []⟩

/-- The extent has the size of the run, and the segment no more than what is
left of the size of the stream. -/
def flush (s : DataStreamState) : DataStreamState :=
  let segmentSize := toUint64 (s.segmentEndOffset - s.segmentStartOffset)
  let appendedSize := min segmentSize s.size
  { s with
    size := s.size - appendedSize
    stream :=
      { extents := s.stream.extents ++ [⟨s.segmentStartOffset, segmentSize⟩]
        segments := s.stream.segments ++ [⟨s.segmentStartOffset, appendedSize⟩] } }

/-- The body of the loop, for the cluster block at an offset. -/
def addClusterBlock (clusterBlockSize : Nat) (offset : Int) (s : DataStreamState) :
    DataStreamState :=
  let s :=
    if s.segmentStartOffset ≠ 0 ∧ offset > s.segmentEndOffset then
      { s.flush with segmentStartOffset := 0 }
    else s
  let s :=
    if s.segmentStartOffset = 0 then
      { s with segmentStartOffset := offset, segmentEndOffset := offset }
    else s
  { s with segmentEndOffset := toOff64 (s.segmentEndOffset + clusterBlockSize) }

/-- After the loop. -/
def finish (s : DataStreamState) : DataStream :=
  if 0 < s.size ∧ s.segmentStartOffset ≠ 0 then s.flush.stream else s.stream

end DataStreamState

/-- What `libfsfat_file_system_get_data_stream` does with a cluster. -/
def dataStreamVisitor (fs : FileSystem) : ChainVisitor DataStreamState where
  finished s := s.size = 0
  visit offset s := .ok (s.addClusterBlock fs.ioHandle.clusterBlockSize offset, false)

/-- The check of `libfsfat_file_system_get_data_stream` on the number of clusters. -/
def hasTotalNumberOfClusters (ioHandle : IoHandle) : Bool :=
  0 < ioHandle.totalNumberOfClusters ∧
    ioHandle.totalNumberOfClusters ≤ memoryMaximumAllocationSize / 4

/-- `libfsfat_file_system_get_data_stream`. -/
def getDataStream (fs : FileSystem) (clusterNumber size : Nat) : Except Error DataStream := do
  let last ← lastClusterNumber fs.ioHandle.fileSystemFormat
  if hasTotalNumberOfClusters fs.ioHandle then
    let tree ← BlockTree.create fs.ioHandle.volumeSize fs.ioHandle.clusterBlockSize
    let s ← (walkChain fs last (dataStreamVisitor fs) tree clusterNumber (.start size)).2
    pure s.finish
  else .error .totalNumberOfClustersOutOfBounds

/-! ### The walks end -/

section Bounds

/-- A walk that ends, on its own, with distinct accepted clusters, no more than
the blocks of the volume, and that ends with an error when it comes back to a
cluster. -/
structure BoundedWalk {α : Type} (fs : FileSystem) (last : Nat) (visitor : ChainVisitor α)
    (tree : BlockTree) (clusterNumber : Nat) (value : α) : Prop where
  returns : Loop.Returns (chainStep fs last visitor) ⟨clusterNumber, tree, [], value⟩
    (walkChain fs last visitor tree clusterNumber value)
  nodup : (walkChain fs last visitor tree clusterNumber value).1.Nodup
  length_le : (walkChain fs last visitor tree clusterNumber value).1.length ≤
    numberOfBlocks fs.ioHandle
  revisit : ∀ w, Loop.Reachable (chainStep fs last visitor) ⟨clusterNumber, tree, [], value⟩ w →
    Visits last visitor w → w.clusterNumber ∈ w.accepted →
    ∃ e, walkChain fs last visitor tree clusterNumber value = (w.accepted, .error e)

theorem standsFor_of_create {size leafValueSize : Nat} {tree : BlockTree}
    (h : BlockTree.create size leafValueSize = .ok tree) :
    (0 < leafValueSize ∧ 0 < size ∧ size ≤ int64Max) ∧
      tree.StandsFor size leafValueSize fun _ => none := by
  by_cases hsize : 0 < leafValueSize ∧ 0 < size ∧ size ≤ int64Max
  · obtain ⟨tree', hcreate, htree⟩ := BlockTree.create_standsFor hsize.1 hsize.2.1 hsize.2.2
    rw [h] at hcreate
    injection hcreate with hcreate
    exact ⟨hsize, hcreate ▸ htree⟩
  · obtain ⟨e, he⟩ := BlockTree.create_error hsize
    rw [h] at he
    cases he

theorem boundedWalk {α : Type} {fs : FileSystem} {tree : BlockTree}
    (htree : BlockTree.create fs.ioHandle.volumeSize fs.ioHandle.clusterBlockSize = .ok tree)
    (last : Nat) (visitor : ChainVisitor α) (clusterNumber : Nat) (value : α) :
    BoundedWalk fs last visitor tree clusterNumber value := by
  obtain ⟨_, hempty⟩ := standsFor_of_create htree
  obtain ⟨hnodup, hlength⟩ :
      (walkChain fs last visitor tree clusterNumber value).1.Nodup ∧
        (walkChain fs last visitor tree clusterNumber value).1.length ≤
          numberOfBlocks fs.ioHandle :=
    walkChain_accepted hempty
  exact ⟨⟨_, walkChain_returns hempty⟩, hnodup, hlength,
    fun w hw hvisits hmem => walkChain_revisit hempty hw hvisits hmem⟩

theorem readDirectory_eq_walk {fs : FileSystem} {last : Nat} {tree : BlockTree}
    (hlast : lastClusterNumber fs.ioHandle.fileSystemFormat = .ok last)
    (htree : BlockTree.create fs.ioHandle.volumeSize fs.ioHandle.clusterBlockSize = .ok tree)
    (image : List UInt8) (clusterNumber : Nat) :
    readDirectory fs image clusterNumber =
      (walkChain fs last (readDirectoryVisitor fs image) tree clusterNumber
        (.start, false)).2.map (·.1.directory) := by
  simp only [readDirectory, hlast, htree, bind, Except.bind, pure, Except.pure, Except.map]

theorem getDataStream_eq_walk {fs : FileSystem} {last : Nat} {tree : BlockTree}
    (hlast : lastClusterNumber fs.ioHandle.fileSystemFormat = .ok last)
    (htree : BlockTree.create fs.ioHandle.volumeSize fs.ioHandle.clusterBlockSize = .ok tree)
    (clusterNumber size : Nat) :
    getDataStream fs clusterNumber size =
      if hasTotalNumberOfClusters fs.ioHandle then
        (walkChain fs last (dataStreamVisitor fs) tree clusterNumber (.start size)).2.map
          DataStreamState.finish
      else .error .totalNumberOfClustersOutOfBounds := by
  simp only [getDataStream, hlast, htree, bind, Except.bind, pure, Except.pure, Except.map]

/-- A call that has no bound for cluster numbers or no block tree ends before its loop. -/
theorem walk_error {fs : FileSystem}
    (h : ∀ last tree, lastClusterNumber fs.ioHandle.fileSystemFormat = .ok last →
      BlockTree.create fs.ioHandle.volumeSize fs.ioHandle.clusterBlockSize ≠ .ok tree)
    (image : List UInt8) (clusterNumber size : Nat) :
    (∃ e, readDirectory fs image clusterNumber = .error e) ∧
      ∃ e, getDataStream fs clusterNumber size = .error e := by
  cases hlast : lastClusterNumber fs.ioHandle.fileSystemFormat with
  | error e =>
    exact ⟨⟨e, by simp only [readDirectory, hlast, bind, Except.bind]⟩,
      ⟨e, by simp only [getDataStream, hlast, bind, Except.bind]⟩⟩
  | ok last =>
    cases htree : BlockTree.create fs.ioHandle.volumeSize fs.ioHandle.clusterBlockSize with
    | ok tree => exact absurd htree (h last tree hlast)
    | error e =>
      refine ⟨⟨e, by simp only [readDirectory, hlast, htree, bind, Except.bind]⟩, ?_⟩
      by_cases htotal : hasTotalNumberOfClusters fs.ioHandle
      · exact ⟨e, by simp only [getDataStream, hlast, htree, htotal, if_true, bind, Except.bind]⟩
      · exact ⟨_, by simp only [getDataStream, hlast, htotal, bind, Except.bind]; rfl⟩

/-- Reading a directory and getting a data stream are such walks, for every
allocation table, volume and start cluster, or they end before the walk. -/
theorem walks_bounded (fs : FileSystem) (image : List UInt8) (clusterNumber size : Nat) :
    (∀ last tree, lastClusterNumber fs.ioHandle.fileSystemFormat = .ok last →
      BlockTree.create fs.ioHandle.volumeSize fs.ioHandle.clusterBlockSize = .ok tree →
      (BoundedWalk fs last (readDirectoryVisitor fs image) tree clusterNumber (.start, false) ∧
        readDirectory fs image clusterNumber =
          (walkChain fs last (readDirectoryVisitor fs image) tree clusterNumber
            (.start, false)).2.map (·.1.directory)) ∧
      (BoundedWalk fs last (dataStreamVisitor fs) tree clusterNumber (.start size) ∧
        getDataStream fs clusterNumber size =
          if hasTotalNumberOfClusters fs.ioHandle then
            (walkChain fs last (dataStreamVisitor fs) tree clusterNumber (.start size)).2.map
              DataStreamState.finish
          else .error .totalNumberOfClustersOutOfBounds)) ∧
    ((∀ last tree, lastClusterNumber fs.ioHandle.fileSystemFormat = .ok last →
        BlockTree.create fs.ioHandle.volumeSize fs.ioHandle.clusterBlockSize ≠ .ok tree) →
      (∃ e, readDirectory fs image clusterNumber = .error e) ∧
        ∃ e, getDataStream fs clusterNumber size = .error e) := by
  refine ⟨fun last tree hlast htree => ?_, fun h => walk_error h image clusterNumber size⟩
  exact ⟨⟨boundedWalk htree _ _ _ _, readDirectory_eq_walk hlast htree _ _⟩,
    boundedWalk htree _ _ _ _, getDataStream_eq_walk hlast htree _ _⟩

/-- A FAT-16 file system with a table in which cluster 2 links to itself. -/
def selfLinkedFileSystem : FileSystem where
  ioHandle :=
    { volumeSize := 2048
      fileSystemFormat := .fat16
      bytesPerSector := 512
      clusterBlockSize := 512
      totalNumberOfClusters := 3
      rootDirectoryOffset := 512
      firstClusterOffset := 1024 }
  allocationTable := ⟨[0xfff8, 0xffff, 2], by decide, by decide, by decide⟩
  reversedAllocationTable := none

/-- The walk over the cluster that links to itself. -/
theorem walks_bounded_self_linked :
    ∃ tree, BlockTree.create 2048 512 = .ok tree ∧
      BoundedWalk selfLinkedFileSystem 0xfff0 (dataStreamVisitor selfLinkedFileSystem) tree 2
        (.start 1024) := by
  obtain ⟨tree, htree, _⟩ := BlockTree.create_standsFor (show 0 < 512 by decide)
    (show 0 < 2048 by decide) (by decide)
  exact ⟨tree, htree,
    (((walks_bounded selfLinkedFileSystem [] 2 1024).1 0xfff0 tree rfl htree).2).1⟩

end Bounds

end FsFat
