import FsFat.AllocationTable
import FsFat.BlockTree

/-!
Walks along a chain of clusters. The functions that read a directory and that
get a data stream have the same loop: it takes the clusters of a chain one by
one, refuses a cluster that it had before, and uses the allocation table for
the next. What they do with a cluster is an argument here.

The results hold for every allocation table: a walk ends, and the clusters that
it accepts are distinct and no more than the blocks of the volume.
-/

namespace FsFat

/-- `libfsfat_file_system_t`, without the root directory and the cache. -/
structure FileSystem where
  ioHandle : IoHandle
  allocationTable : AllocationTable
  reversedAllocationTable : Option AllocationTable

/-- The first cluster number that is not the number of a cluster. -/
def lastClusterNumber : FileSystemFormat → Except Error Nat
  | .fat12 => .ok 0x00000ff0
  | .fat16 => .ok 0x0000fff0
  | .fat32 => .ok 0x0ffffff0
  | .exfat => .ok 0xfffffff0
  | .unknown => .error .unsupportedFileSystemFormat

/-- The offset of a cluster block, in the 32-bit and 64-bit arithmetic of the source. -/
def clusterOffset (ioHandle : IoHandle) (clusterNumber : Nat) : Int :=
  toOff64 (ioHandle.firstClusterOffset +
    ((clusterNumber : Int) - 2) % 2 ^ 32 * ioHandle.clusterBlockSize)

/-- `libfsfat_file_system_check_if_cluster_block_first_read`. -/
def checkIfClusterBlockFirstRead (tree : BlockTree) (clusterNumber : Nat) (offset : Int) :
    Except Error BlockTree := do
  let (existing, tree) ← tree.insertBlockDescriptorByOffset offset ⟨clusterNumber⟩
  match existing with
  | some _ => .error .clusterNumberAlreadyExists
  | none => .ok tree

section Walk

variable {α : Type}

/-- The variables of a walk. The list of the clusters that were accepted is not
in the source; no result but the list itself depends on it. -/
structure ChainWalk (α : Type) where
  clusterNumber : Nat
  tree : BlockTree
  accepted : List Nat
  value : α

/-- What a walk does with the clusters: when it has enough, and how the value
changes at the offset of a cluster. The flag says that the walk ends there. -/
structure ChainVisitor (α : Type) where
  finished : α → Bool
  visit : Int → α → Except Error (α × Bool)

/-- The rest of the body of the loop, after the cluster was checked and visited:
the next cluster is looked up in the allocation table. -/
def afterVisit (fs : FileSystem) (w : ChainWalk α) (tree : BlockTree) :
    Except Error (α × Bool) → Loop.Step (ChainWalk α) (List Nat × Except Error α)
  | .error e => .done (w.accepted ++ [w.clusterNumber], .error e)
  | .ok (value, true) => .done (w.accepted ++ [w.clusterNumber], .ok value)
  | .ok (value, false) =>
    match fs.allocationTable.getClusterNumberByIndex (toInt32 w.clusterNumber) with
    | .error e => .done (w.accepted ++ [w.clusterNumber], .error e)
    | .ok clusterNumber =>
      .next { clusterNumber, tree, accepted := w.accepted ++ [w.clusterNumber], value }

/-- The body of the loop. The loop is left with the accepted clusters and the
value, or an error. -/
def chainStep (fs : FileSystem) (last : Nat) (visitor : ChainVisitor α) (w : ChainWalk α) :
    Loop.Step (ChainWalk α) (List Nat × Except Error α) :=
  if w.clusterNumber < 2 ∨ last ≤ w.clusterNumber ∨ visitor.finished w.value then
    .done (w.accepted, .ok w.value)
  else
    let offset := clusterOffset fs.ioHandle w.clusterNumber
    match checkIfClusterBlockFirstRead w.tree w.clusterNumber offset with
    | .error e => .done (w.accepted, .error e)
    | .ok tree => afterVisit fs w tree (visitor.visit offset w.value)

/-- The number of blocks of a volume, the last one perhaps not whole. -/
def numberOfBlocks (ioHandle : IoHandle) : Nat :=
  (ioHandle.volumeSize + ioHandle.clusterBlockSize - 1) / ioHandle.clusterBlockSize

/-- The loop. It is left before the iterations are used up: see
`walkChain_returns`. -/
def walkChain (fs : FileSystem) (last : Nat) (visitor : ChainVisitor α) (tree : BlockTree)
    (clusterNumber : Nat) (value : α) : List Nat × Except Error α :=
  match Loop.run (chainStep fs last visitor) (numberOfBlocks fs.ioHandle + 1)
      ⟨clusterNumber, tree, [], value⟩ with
  | .done result => result
  | .next w => (w.accepted, .error .iterationLimit)

/-! ### The accepted clusters -/

/-- The block of the volume in which a cluster block starts. -/
def clusterBlock (ioHandle : IoHandle) (clusterNumber : Nat) : Nat :=
  (clusterOffset ioHandle clusterNumber).toNat / ioHandle.clusterBlockSize

/-- The map with the accepted clusters, each at its block. -/
def acceptedMap (ioHandle : IoHandle) (accepted : List Nat) : BlockTree.BlockMap := fun block =>
  (accepted.find? fun c => clusterBlock ioHandle c = block).map BlockDescriptor.mk

theorem acceptedMap_append (ioHandle : IoHandle) (accepted : List Nat) (c : Nat) :
    acceptedMap ioHandle (accepted ++ [c]) =
      (acceptedMap ioHandle accepted).insert (clusterBlock ioHandle c) ⟨c⟩ := by
  funext block
  unfold BlockTree.BlockMap.insert
  by_cases hblock : clusterBlock ioHandle c = block
  · subst hblock
    cases hfind : accepted.find? fun d => clusterBlock ioHandle d = clusterBlock ioHandle c <;>
      simp [acceptedMap, List.find?_append, hfind]
  · cases hmap : acceptedMap ioHandle accepted (clusterBlock ioHandle c) <;>
      simp [acceptedMap, List.find?_append, hblock, Function.update_of_ne (Ne.symm hblock)]

theorem acceptedMap_eq_none_iff {ioHandle : IoHandle} {accepted : List Nat} {block : Nat} :
    acceptedMap ioHandle accepted block = none ↔
      ∀ c ∈ accepted, clusterBlock ioHandle c ≠ block := by
  simp [acceptedMap]

/-- The clusters that a walk has accepted: the block tree stands for their
blocks, they are clusters, and their blocks are distinct blocks of the volume. -/
structure Accepted (fs : FileSystem) (last : Nat) (tree : BlockTree) (accepted : List Nat) :
    Prop where
  tree : tree.StandsFor fs.ioHandle.volumeSize fs.ioHandle.clusterBlockSize
    (acceptedMap fs.ioHandle accepted)
  covers : ∀ c ∈ accepted, 2 ≤ c ∧ c < last ∧
    BlockTree.Covers fs.ioHandle.volumeSize fs.ioHandle.clusterBlockSize
      (clusterOffset fs.ioHandle c)
  nodup : (accepted.map (clusterBlock fs.ioHandle)).Nodup

/-- A cluster is checked: it is added to the tree if the tree covers it and has
no cluster at its block, and refused otherwise. -/
theorem checkIfClusterBlockFirstRead_ok {fs : FileSystem} {last : Nat} {tree : BlockTree}
    {accepted : List Nat} (h : Accepted fs last tree accepted) {c : Nat} (h2 : 2 ≤ c)
    (hlast : c < last) (hcovers : BlockTree.Covers fs.ioHandle.volumeSize
      fs.ioHandle.clusterBlockSize (clusterOffset fs.ioHandle c))
    (hnew : ∀ d ∈ accepted, clusterBlock fs.ioHandle d ≠ clusterBlock fs.ioHandle c) :
    ∃ tree', checkIfClusterBlockFirstRead tree c (clusterOffset fs.ioHandle c) = .ok tree' ∧
      Accepted fs last tree' (accepted ++ [c]) := by
  obtain ⟨tree', hinsert, htree'⟩ := BlockTree.insert_spec h.tree hcovers ⟨c⟩
  have hnone : acceptedMap fs.ioHandle accepted
      ((clusterOffset fs.ioHandle c).toNat / fs.ioHandle.clusterBlockSize) = none :=
    acceptedMap_eq_none_iff.mpr hnew
  rw [hnone] at hinsert
  refine ⟨tree', ?_, ?_, ?_, ?_⟩
  · simp only [checkIfClusterBlockFirstRead, hinsert, bind, Except.bind]
  · rw [acceptedMap_append]
    exact htree'
  · intro d hd
    rcases List.mem_append.mp hd with hd | hd
    · exact h.covers d hd
    · rw [List.mem_singleton.mp hd]
      exact ⟨h2, hlast, hcovers⟩
  · rw [List.map_append, List.nodup_append]
    refine ⟨h.nodup, by simp, ?_⟩
    intro a ha b hb
    obtain ⟨d, hd, rfl⟩ := List.mem_map.mp ha
    rw [List.mem_singleton.mp hb]
    exact hnew d hd

theorem checkIfClusterBlockFirstRead_error {fs : FileSystem} {last : Nat} {tree : BlockTree}
    {accepted : List Nat} (h : Accepted fs last tree accepted) {c : Nat}
    (hout : ¬ (BlockTree.Covers fs.ioHandle.volumeSize fs.ioHandle.clusterBlockSize
        (clusterOffset fs.ioHandle c) ∧
      ∀ d ∈ accepted, clusterBlock fs.ioHandle d ≠ clusterBlock fs.ioHandle c)) :
    ∃ e, checkIfClusterBlockFirstRead tree c (clusterOffset fs.ioHandle c) = .error e := by
  by_cases hcovers : BlockTree.Covers fs.ioHandle.volumeSize fs.ioHandle.clusterBlockSize
      (clusterOffset fs.ioHandle c)
  · obtain ⟨tree', hinsert, _⟩ := BlockTree.insert_spec h.tree hcovers ⟨c⟩
    have hsome : acceptedMap fs.ioHandle accepted
        ((clusterOffset fs.ioHandle c).toNat / fs.ioHandle.clusterBlockSize) ≠ none := by
      intro hnone
      exact hout ⟨hcovers, acceptedMap_eq_none_iff.mp hnone⟩
    obtain ⟨existing, hexisting⟩ := Option.ne_none_iff_exists'.mp hsome
    rw [hexisting] at hinsert
    exact ⟨_, by simp only [checkIfClusterBlockFirstRead, hinsert, bind, Except.bind]; rfl⟩
  · obtain ⟨e, he⟩ := BlockTree.insert_error h.tree hcovers ⟨c⟩
    exact ⟨e, by simp only [checkIfClusterBlockFirstRead, he, bind, Except.bind]⟩

/-- There are no more accepted clusters than blocks, since an offset of the
volume lies in one of them. -/
theorem Accepted.length_le {fs : FileSystem} {last : Nat} {tree : BlockTree} {accepted : List Nat}
    (h : Accepted fs last tree accepted) : accepted.length ≤ numberOfBlocks fs.ioHandle := by
  have hpos := h.tree.leaf_pos
  have hsubset : (accepted.map (clusterBlock fs.ioHandle)).toFinset ⊆
      Finset.range (numberOfBlocks fs.ioHandle) := by
    intro block hblock
    obtain ⟨c, hc, rfl⟩ := List.mem_map.mp (List.mem_toFinset.mp hblock)
    obtain ⟨_, _, h0, hlt, _⟩ := h.covers c hc
    rw [Finset.mem_range, clusterBlock, numberOfBlocks, Nat.div_lt_iff_lt_mul hpos]
    have hmul := Nat.lt_div_mul_add hpos
      (a := fs.ioHandle.volumeSize + fs.ioHandle.clusterBlockSize - 1)
    omega
  have hcard := Finset.card_le_card hsubset
  rw [List.toFinset_card_of_nodup h.nodup, Finset.card_range, List.length_map] at hcard
  exact hcard

theorem Accepted.clusters_nodup {fs : FileSystem} {last : Nat} {tree : BlockTree}
    {accepted : List Nat} (h : Accepted fs last tree accepted) : accepted.Nodup :=
  h.nodup.of_map

theorem accepted_nil {fs : FileSystem} {last : Nat} {tree : BlockTree}
    (h : tree.StandsFor fs.ioHandle.volumeSize fs.ioHandle.clusterBlockSize fun _ => none) :
    Accepted fs last tree [] :=
  ⟨h, fun _ hc => absurd hc List.not_mem_nil, List.nodup_nil⟩

/-! ### One iteration -/

/-- The loop is not left before the check of the cluster. -/
def Visits (last : Nat) (visitor : ChainVisitor α) (w : ChainWalk α) : Prop :=
  2 ≤ w.clusterNumber ∧ w.clusterNumber < last ∧ visitor.finished w.value = false

section Step

variable {fs : FileSystem} {last : Nat} {visitor : ChainVisitor α} {w : ChainWalk α}

theorem chainStep_exit (h : ¬ Visits last visitor w) :
    chainStep fs last visitor w = .done (w.accepted, .ok w.value) := by
  unfold chainStep
  rw [if_pos]
  by_contra hnot
  simp only [not_or, Bool.not_eq_true] at hnot
  exact h ⟨by omega, by omega, hnot.2.2⟩

private theorem not_exit_of_visits (h : Visits last visitor w) :
    ¬ (w.clusterNumber < 2 ∨ last ≤ w.clusterNumber ∨ visitor.finished w.value = true) := by
  obtain ⟨h2, hlast, hfinished⟩ := h
  rw [hfinished]
  simp only [Bool.false_eq_true, or_false]
  omega

/-- A cluster that the block tree does not cover, or whose block it has, ends
the walk with an error. -/
theorem chainStep_refused (visitor : ChainVisitor α) (h : Visits last visitor w)
    (hw : Accepted fs last w.tree w.accepted)
    (hout : ¬ (BlockTree.Covers fs.ioHandle.volumeSize fs.ioHandle.clusterBlockSize
        (clusterOffset fs.ioHandle w.clusterNumber) ∧
      ∀ d ∈ w.accepted, clusterBlock fs.ioHandle d ≠ clusterBlock fs.ioHandle w.clusterNumber)) :
    ∃ e, chainStep fs last visitor w = .done (w.accepted, .error e) := by
  obtain ⟨e, he⟩ := checkIfClusterBlockFirstRead_error hw hout
  exact ⟨e, by simp only [chainStep, if_neg (not_exit_of_visits h), he]⟩

/-- Any other cluster is accepted and visited. -/
theorem chainStep_accepted (visitor : ChainVisitor α) (h : Visits last visitor w)
    (hw : Accepted fs last w.tree w.accepted)
    (hcovers : BlockTree.Covers fs.ioHandle.volumeSize fs.ioHandle.clusterBlockSize
      (clusterOffset fs.ioHandle w.clusterNumber))
    (hnew : ∀ d ∈ w.accepted,
      clusterBlock fs.ioHandle d ≠ clusterBlock fs.ioHandle w.clusterNumber) :
    ∃ tree, Accepted fs last tree (w.accepted ++ [w.clusterNumber]) ∧
      chainStep fs last visitor w = afterVisit fs w tree
        (visitor.visit (clusterOffset fs.ioHandle w.clusterNumber) w.value) := by
  obtain ⟨tree, hcheck, haccepted⟩ := checkIfClusterBlockFirstRead_ok hw h.1 h.2.1 hcovers hnew
  exact ⟨tree, haccepted, by simp only [chainStep, if_neg (not_exit_of_visits h), hcheck]⟩

/-- What an iteration can do: it leaves the loop, or accepts one cluster more. In either case the
clusters that are accepted after it are in a tree. -/
theorem chainStep_cases (hw : Accepted fs last w.tree w.accepted) :
    (∃ result, chainStep fs last visitor w = .done result ∧ ∃ tree, Accepted fs last tree result.1) ∨
      ∃ w', chainStep fs last visitor w = .next w' ∧
        w'.accepted = w.accepted ++ [w.clusterNumber] ∧ Accepted fs last w'.tree w'.accepted := by
  by_cases hvisits : Visits last visitor w
  · by_cases hin : BlockTree.Covers fs.ioHandle.volumeSize fs.ioHandle.clusterBlockSize
        (clusterOffset fs.ioHandle w.clusterNumber) ∧
      ∀ d ∈ w.accepted, clusterBlock fs.ioHandle d ≠ clusterBlock fs.ioHandle w.clusterNumber
    · obtain ⟨tree, haccepted, heq⟩ := chainStep_accepted visitor hvisits hw hin.1 hin.2
      rw [heq]
      unfold afterVisit
      split
      · exact .inl ⟨_, rfl, tree, haccepted⟩
      · exact .inl ⟨_, rfl, tree, haccepted⟩
      · split
        · exact .inl ⟨_, rfl, tree, haccepted⟩
        · exact .inr ⟨_, rfl, rfl, haccepted⟩
    · obtain ⟨e, he⟩ := chainStep_refused visitor hvisits hw hin
      exact .inl ⟨_, he, w.tree, hw⟩
  · exact .inl ⟨_, chainStep_exit hvisits, w.tree, hw⟩

/-- An iteration that stays in the loop accepts one cluster more. -/
theorem chainStep_next (hw : Accepted fs last w.tree w.accepted) {w' : ChainWalk α}
    (hstep : chainStep fs last visitor w = .next w') :
    w'.accepted = w.accepted ++ [w.clusterNumber] ∧ Accepted fs last w'.tree w'.accepted := by
  rcases chainStep_cases hw with ⟨result, hdone, -⟩ | ⟨w₁, hnext, haccepted⟩
  · cases hdone.symm.trans hstep
  · injection hnext.symm.trans hstep with heq
    exact heq ▸ haccepted

/-- When the loop is left, at most one cluster more has been accepted. -/
theorem chainStep_done (hw : Accepted fs last w.tree w.accepted)
    {result : List Nat × Except Error α} (hstep : chainStep fs last visitor w = .done result) :
    ∃ tree, Accepted fs last tree result.1 := by
  rcases chainStep_cases hw with ⟨result₁, hdone, haccepted⟩ | ⟨w', hnext, -⟩
  · injection hdone.symm.trans hstep with heq
    exact heq ▸ haccepted
  · cases hnext.symm.trans hstep

end Step

/-! ### Whole walks -/

section Run

variable {fs : FileSystem} {last : Nat} {visitor : ChainVisitor α} {tree : BlockTree} {c : Nat}
  {value : α}

/-- The states in which the body of the loop is entered keep the invariant. -/
theorem reachable_accepted
    (htree : tree.StandsFor fs.ioHandle.volumeSize fs.ioHandle.clusterBlockSize fun _ => none)
    {w : ChainWalk α} (hw : Loop.Reachable (chainStep fs last visitor) ⟨c, tree, [], value⟩ w) :
    Accepted fs last w.tree w.accepted :=
  hw.invariant (I := fun w => Accepted fs last w.tree w.accepted) (accepted_nil htree)
    fun _ _ hs hstep => (chainStep_next hs hstep).2

/-- An iteration accepts a cluster, of which there are no more than blocks. -/
theorem chainStep_remaining_lt {w w' : ChainWalk α} (hw : Accepted fs last w.tree w.accepted)
    (hstep : chainStep fs last visitor w = .next w') :
    numberOfBlocks fs.ioHandle - w'.accepted.length <
      numberOfBlocks fs.ioHandle - w.accepted.length := by
  obtain ⟨heq, hw'⟩ := chainStep_next hw hstep
  have hle := hw'.length_le
  rw [heq, List.length_append, List.length_singleton] at hle ⊢
  omega

/-- Every walk ends, after at most one iteration more than there are blocks. -/
theorem walkChain_returns
    (htree : tree.StandsFor fs.ioHandle.volumeSize fs.ioHandle.clusterBlockSize fun _ => none) :
    Loop.run (chainStep fs last visitor) (numberOfBlocks fs.ioHandle + 1) ⟨c, tree, [], value⟩ =
      .done (walkChain fs last visitor tree c value) := by
  obtain ⟨result, hresult⟩ : ∃ result, Loop.run (chainStep fs last visitor)
      (numberOfBlocks fs.ioHandle + 1) ⟨c, tree, [], value⟩ = .done result :=
    Loop.run_of_measure (I := fun w => Accepted fs last w.tree w.accepted)
    (fun w => numberOfBlocks fs.ioHandle - w.accepted.length)
    (fun _ _ hs hstep => (chainStep_next hs hstep).2)
    (fun _ _ hs hstep => chainStep_remaining_lt hs hstep) (accepted_nil htree) (by simp)
  rw [hresult, walkChain, hresult]

/-- The clusters that a walk accepts are distinct, and no more than the blocks
of the volume. -/
theorem walkChain_accepted
    (htree : tree.StandsFor fs.ioHandle.volumeSize fs.ioHandle.clusterBlockSize fun _ => none) :
    (walkChain fs last visitor tree c value).1.Nodup ∧
      (walkChain fs last visitor tree c value).1.length ≤ numberOfBlocks fs.ioHandle := by
  have hresult : ∃ t, Accepted fs last t (walkChain fs last visitor tree c value).1 :=
    Loop.Returns.invariant (I := fun w => Accepted fs last w.tree w.accepted)
      (P := fun result => ∃ t, Accepted fs last t result.1)
      (⟨_, walkChain_returns htree⟩ : Loop.Returns (chainStep fs last visitor)
        ⟨c, tree, [], value⟩ (walkChain fs last visitor tree c value))
      (accepted_nil htree) (fun _ _ hs hstep => (chainStep_next hs hstep).2)
      (fun _ _ hs hstep => chainStep_done hs hstep)
  obtain ⟨t, ht⟩ := hresult
  exact ⟨ht.clusters_nodup, ht.length_le⟩

/-- A walk that comes back to a cluster ends there with an error, and does not
accept the cluster again. -/
theorem walkChain_revisit
    (htree : tree.StandsFor fs.ioHandle.volumeSize fs.ioHandle.clusterBlockSize fun _ => none)
    {w : ChainWalk α} (hw : Loop.Reachable (chainStep fs last visitor) ⟨c, tree, [], value⟩ w)
    (hvisits : Visits last visitor w) (hmem : w.clusterNumber ∈ w.accepted) :
    ∃ e, walkChain fs last visitor tree c value = (w.accepted, .error e) := by
  obtain ⟨e, he⟩ := chainStep_refused visitor hvisits (reachable_accepted htree hw)
    fun hin => hin.2 _ hmem rfl
  have hreturns := hw.returns (Loop.Returns.of_done he)
  exact ⟨e, Loop.Returns.unique ⟨_, walkChain_returns htree⟩ hreturns⟩

end Run

end Walk

/-! ### Chains -/

/-- The chain of clusters that starts at a cluster: each links to the next in
the allocation table, and the last one to a number that is not the number of a
cluster. -/
inductive IsChain (table : AllocationTable) (last : Nat) : Nat → List Nat → Prop where
  | ended {c : Nat} : c < 2 ∨ last ≤ c → IsChain table last c []
  | linked {c next : Nat} {rest : List Nat} : 2 ≤ c → c < last →
      table.getClusterNumberByIndex c = .ok next → IsChain table last next rest →
      IsChain table last c (c :: rest)

/-- The offset of a cluster block, as a number without bounds. -/
def clusterStart (ioHandle : IoHandle) (clusterNumber : Nat) : Int :=
  ioHandle.firstClusterOffset + ((clusterNumber : Int) - 2) * ioHandle.clusterBlockSize

/-- The cluster block lies in the volume. -/
def InVolume (ioHandle : IoHandle) (clusterNumber : Nat) : Prop :=
  2 ≤ clusterNumber ∧
    clusterStart ioHandle clusterNumber + ioHandle.clusterBlockSize ≤ ioHandle.volumeSize

instance (ioHandle : IoHandle) (clusterNumber : Nat) : Decidable (InVolume ioHandle clusterNumber) :=
  inferInstanceAs (Decidable (_ ∧ _))

section Chain

variable {fs : FileSystem} {last : Nat}

theorem IsChain.mem {table : AllocationTable} {c : Nat} {chain : List Nat}
    (h : IsChain table last c chain) {d : Nat} (hd : d ∈ chain) :
    2 ≤ d ∧ d < last ∧ d < table.numberOfClusterNumbers := by
  induction h with
  | ended _ => cases hd
  | linked h2 hlast hnext _ ih =>
    rcases List.mem_cons.mp hd with rfl | hd
    · obtain ⟨_, hlt, _⟩ := AllocationTable.getClusterNumberByIndex_eq_ok_iff.mp hnext
      exact ⟨h2, hlast, by omega⟩
    · exact ih hd

/-- In a volume whose size is an offset, the offset of a cluster block in it is
the number that it stands for. -/
theorem clusterOffset_eq {ioHandle : IoHandle} (hfirst : 0 < ioHandle.firstClusterOffset)
    (hmax : ioHandle.volumeSize ≤ int64Max) {c : Nat} (hc : InVolume ioHandle c)
    (hlt : c < 2 ^ 32) : clusterOffset ioHandle c = clusterStart ioHandle c := by
  obtain ⟨h2, hend⟩ := hc
  unfold clusterOffset
  rw [Int.emod_eq_of_lt (by omega) (by omega)]
  have hnonneg : 0 ≤ ((c : Int) - 2) * ioHandle.clusterBlockSize :=
    mul_nonneg (by omega) (by omega)
  unfold clusterStart at hend ⊢
  exact toOff64_of_nonneg (by omega) (by omega)

/-- Distinct cluster blocks of a volume start in distinct blocks. -/
theorem clusterBlock_inj {ioHandle : IoHandle} (hfirst : 0 < ioHandle.firstClusterOffset)
    (hmax : ioHandle.volumeSize ≤ int64Max) (hsize : 0 < ioHandle.clusterBlockSize) {c d : Nat}
    (hc : InVolume ioHandle c) (hd : InVolume ioHandle d) (hclt : c < 2 ^ 32) (hdlt : d < 2 ^ 32)
    (h : clusterBlock ioHandle c = clusterBlock ioHandle d) : c = d := by
  have hquot {e : Nat} (he : InVolume ioHandle e) (helt : e < 2 ^ 32) :
      clusterBlock ioHandle e =
        ioHandle.firstClusterOffset.toNat / ioHandle.clusterBlockSize + (e - 2) := by
    obtain ⟨h2, _⟩ := id he
    have hnat : (clusterStart ioHandle e).toNat =
        ioHandle.firstClusterOffset.toNat + (e - 2) * ioHandle.clusterBlockSize := by
      unfold clusterStart
      have hcast : ((e : Int) - 2) * ioHandle.clusterBlockSize =
          (((e - 2) * ioHandle.clusterBlockSize : Nat) : Int) := by
        push_cast [h2]
        ring
      rw [hcast]
      omega
    rw [clusterBlock, clusterOffset_eq hfirst hmax he helt, hnat, Nat.add_mul_div_right _ _ hsize]
  rw [hquot hc hclt, hquot hd hdlt] at h
  have h2c := hc.1
  have h2d := hd.1
  omega

/-- Distinct cluster blocks of a volume have room in it. -/
theorem length_mul_le_volumeSize {ioHandle : IoHandle} (hfirst : 0 < ioHandle.firstClusterOffset)
    (hsize : 0 < ioHandle.clusterBlockSize) {chain : List Nat} (hnodup : chain.Nodup)
    (hin : ∀ c ∈ chain, InVolume ioHandle c) :
    chain.length * ioHandle.clusterBlockSize ≤ ioHandle.volumeSize := by
  have hlt (c : Nat) (hc : c ∈ chain) :
      2 ≤ c ∧ c - 2 < ioHandle.volumeSize / ioHandle.clusterBlockSize := by
    obtain ⟨h2, hend⟩ := hin c hc
    refine ⟨h2, ?_⟩
    rw [Nat.lt_iff_add_one_le, Nat.le_div_iff_mul_le hsize]
    unfold clusterStart at hend
    have hcast : ((c : Int) - 2) * ioHandle.clusterBlockSize =
        (((c - 2) * ioHandle.clusterBlockSize : Nat) : Int) := by
      push_cast [h2]
      ring
    rw [hcast] at hend
    rw [Nat.add_mul, Nat.one_mul]
    omega
  have hsubset : (chain.map (· - 2)).toFinset ⊆
      Finset.range (ioHandle.volumeSize / ioHandle.clusterBlockSize) := by
    intro k hk
    obtain ⟨c, hc, rfl⟩ := List.mem_map.mp (List.mem_toFinset.mp hk)
    exact Finset.mem_range.mpr (hlt c hc).2
  have hmap : (chain.map (· - 2)).Nodup := by
    refine List.Nodup.map_on (fun c hc d hd heq => ?_) hnodup
    have h2c := (hlt c hc).1
    have h2d := (hlt d hd).1
    omega
  have hcard := Finset.card_le_card hsubset
  rw [List.toFinset_card_of_nodup hmap, Finset.card_range, List.length_map] at hcard
  exact le_trans (Nat.mul_le_mul_right _ hcard) (Nat.div_mul_le_self _ _)

/-- The block tree covers the start of the cluster block. -/
abbrev CoversCluster (ioHandle : IoHandle) (clusterNumber : Nat) : Prop :=
  BlockTree.Covers ioHandle.volumeSize ioHandle.clusterBlockSize
    (clusterOffset ioHandle clusterNumber)

/-- The clusters of a volume whose offsets are positive 64-bit values. -/
structure ClustersInVolume (ioHandle : IoHandle) (chain : List Nat) : Prop where
  first_pos : 0 < ioHandle.firstClusterOffset
  volume_le : ioHandle.volumeSize ≤ int64Max
  block_pos : 0 < ioHandle.clusterBlockSize
  clusters : ∀ c ∈ chain, InVolume ioHandle c ∧ c < 2 ^ 32

theorem ClustersInVolume.of_subset {ioHandle : IoHandle} {chain chain' : List Nat}
    (h : ClustersInVolume ioHandle chain) (hsub : chain' ⊆ chain) :
    ClustersInVolume ioHandle chain' :=
  ⟨h.first_pos, h.volume_le, h.block_pos, fun c hc => h.clusters c (hsub hc)⟩

/-- The offset of a cluster of the volume is its start, and the block ends in the volume. -/
theorem ClustersInVolume.offset {ioHandle : IoHandle} {chain : List Nat}
    (h : ClustersInVolume ioHandle chain) {c : Nat} (hc : c ∈ chain) :
    clusterOffset ioHandle c = clusterStart ioHandle c ∧ 0 < clusterStart ioHandle c ∧
      clusterStart ioHandle c + ioHandle.clusterBlockSize ≤ int64Max := by
  obtain ⟨hin, hlt⟩ := h.clusters c hc
  have hfirst := h.first_pos
  have hvolume := h.volume_le
  have hnonneg : 0 ≤ ((c : Int) - 2) * ioHandle.clusterBlockSize :=
    mul_nonneg (by have := hin.1; omega) (by omega)
  have hend := hin.2
  refine ⟨clusterOffset_eq hfirst hvolume hin hlt, ?_, by omega⟩
  unfold clusterStart
  omega

/-- Distinct clusters of a volume are in distinct blocks. -/
theorem ClustersInVolume.blocks_nodup {ioHandle : IoHandle} {chain : List Nat}
    (h : ClustersInVolume ioHandle chain) (hnodup : chain.Nodup) :
    (chain.map (clusterBlock ioHandle)).Nodup := by
  apply List.Nodup.map_on _ hnodup
  intro c hc d hd heq
  obtain ⟨hinc, hltc⟩ := h.clusters c hc
  obtain ⟨hind, hltd⟩ := h.clusters d hd
  exact clusterBlock_inj h.first_pos h.volume_le h.block_pos hinc hind hltc hltd heq

/-- What a visitor makes of the clusters of a chain, taken one by one. There is
no value when a visit fails, or when a cluster that is taken is not covered by
the block tree. -/
def visitChain {α : Type} (ioHandle : IoHandle) (visitor : ChainVisitor α) :
    List Nat → α → Option α
  | [], value => some value
  | c :: rest, value =>
    if visitor.finished value then some value
    else if CoversCluster ioHandle c then
      match visitor.visit (clusterOffset ioHandle c) value with
      | .error _ => none
      | .ok (value, true) => some value
      | .ok (value, false) => visitChain ioHandle visitor rest value
    else none

/-- The loop along a chain of clusters in distinct blocks. -/
theorem visitChain_returns {α : Type} {visitor : ChainVisitor α} {chain : List Nat}
    {w : ChainWalk α} (hw : Accepted fs last w.tree w.accepted)
    (hchain : IsChain fs.allocationTable last w.clusterNumber chain)
    (hnew : ∀ d ∈ w.accepted, ∀ c ∈ chain, clusterBlock fs.ioHandle d ≠ clusterBlock fs.ioHandle c)
    (hnodup : (chain.map (clusterBlock fs.ioHandle)).Nodup) :
    ∃ accepted result, Loop.Returns (chainStep fs last visitor) w (accepted, result) ∧
      ∀ value, result = .ok value ↔ visitChain fs.ioHandle visitor chain w.value = some value := by
  obtain ⟨c, tree, accepted, value⟩ := w
  dsimp only at hw hchain hnew ⊢
  induction hchain generalizing tree accepted value with
  | @ended c hout =>
    have hexit : chainStep fs last visitor ⟨c, tree, accepted, value⟩ =
        .done (accepted, .ok value) := by
      apply chainStep_exit
      rintro ⟨h2, hlt, _⟩
      dsimp only at h2 hlt
      omega
    exact ⟨_, _, Loop.Returns.of_done hexit, by simp [visitChain]⟩
  | @linked c next rest h2 hlt hnext _ ih =>
    rw [List.map_cons, List.nodup_cons] at hnodup
    cases hfinished : visitor.finished value with
    | true =>
      have hexit : chainStep fs last visitor ⟨c, tree, accepted, value⟩ =
          .done (accepted, .ok value) := by
        apply chainStep_exit
        rintro ⟨_, _, h⟩
        simp [hfinished] at h
      exact ⟨_, _, Loop.Returns.of_done hexit, by simp [visitChain, hfinished]⟩
    | false =>
      have hvisits : Visits last visitor ⟨c, tree, accepted, value⟩ := ⟨h2, hlt, hfinished⟩
      by_cases hcovers : CoversCluster fs.ioHandle c
      · have hfresh : ∀ d ∈ accepted, clusterBlock fs.ioHandle d ≠ clusterBlock fs.ioHandle c :=
          fun d hd => hnew d hd c List.mem_cons_self
        obtain ⟨tree', haccepted, hstep⟩ := chainStep_accepted visitor hvisits hw hcovers hfresh
        obtain ⟨_, htable, _⟩ := AllocationTable.getClusterNumberByIndex_eq_ok_iff.mp hnext
        have hlt' : c < fs.allocationTable.numberOfClusterNumbers := by omega
        have hint : toInt32 c = c := AllocationTable.toInt32_of_lt_numberOfClusterNumbers hlt'
        cases hvisit : visitor.visit (clusterOffset fs.ioHandle c) value with
        | error e =>
          simp only [hvisit, afterVisit] at hstep
          exact ⟨_, _, Loop.Returns.of_done hstep, by simp [visitChain, hfinished, hcovers, hvisit]⟩
        | ok visited =>
          obtain ⟨value', ends⟩ := visited
          cases ends with
          | true =>
            simp only [hvisit, afterVisit] at hstep
            exact ⟨_, _, Loop.Returns.of_done hstep, by
              simp [visitChain, hfinished, hcovers, hvisit]⟩
          | false =>
            simp only [hvisit, afterVisit, hint, hnext] at hstep
            have hnew' : ∀ d ∈ accepted ++ [c], ∀ e ∈ rest,
                clusterBlock fs.ioHandle d ≠ clusterBlock fs.ioHandle e := by
              intro d hd e he
              rcases List.mem_append.mp hd with hd | hd
              · exact hnew d hd e (List.mem_cons_of_mem _ he)
              · rw [List.mem_singleton.mp hd]
                intro heq
                exact hnodup.1 (heq ▸ List.mem_map_of_mem he)
            obtain ⟨acc, result, hreturns, hresult⟩ :=
              ih hnodup.2 tree' (accepted ++ [c]) value' haccepted hnew'
            refine ⟨acc, result, Loop.Returns.of_next hstep hreturns, ?_⟩
            simpa [visitChain, hfinished, hcovers, hvisit] using hresult
      · obtain ⟨e, he⟩ := chainStep_refused visitor hvisits hw fun hin => hcovers hin.1
        exact ⟨_, _, Loop.Returns.of_done he, by simp [visitChain, hfinished, hcovers]⟩

/-- A walk along a chain of distinct clusters of the volume. -/
theorem walkChain_eq_ok_iff {α : Type} (visitor : ChainVisitor α) {tree : BlockTree}
    (htree : tree.StandsFor fs.ioHandle.volumeSize fs.ioHandle.clusterBlockSize fun _ => none)
    {c : Nat} {chain : List Nat} (hchain : IsChain fs.allocationTable last c chain)
    (hvolume : ClustersInVolume fs.ioHandle chain) (hnodup : chain.Nodup) (value value' : α) :
    (walkChain fs last visitor tree c value).2 = .ok value' ↔
      visitChain fs.ioHandle visitor chain value = some value' := by
  have haccepted : Accepted fs last tree [] := accepted_nil htree
  obtain ⟨accepted, result, hreturns, hresult⟩ :
      ∃ accepted result, Loop.Returns (chainStep fs last visitor) ⟨c, tree, [], value⟩
        (accepted, result) ∧
      ∀ value', result = .ok value' ↔ visitChain fs.ioHandle visitor chain value = some value' :=
    visitChain_returns haccepted hchain (fun d hd => absurd hd List.not_mem_nil)
      (hvolume.blocks_nodup hnodup)
  have hwalk : walkChain fs last visitor tree c value = (accepted, result) :=
    Loop.Returns.unique ⟨_, walkChain_returns htree⟩ hreturns
  rw [hwalk]
  exact hresult value'

end Chain

end FsFat
