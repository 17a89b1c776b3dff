import FsFat.BlockTreeNode

/-!
The block tree: `libfsfat_block_tree.c`. It records for each block of a volume
the first descriptor that was inserted at an offset in the block. The purpose
of the tree is to be a partial map from block numbers to descriptors, and the
results say that it is one: an insert adds to the map or finds what is there,
and no insert forgets an earlier one. They also say for which offsets of the
volume an insert works, since the tree does not reach all of them.
-/

namespace FsFat

/-- `libfsfat_block_tree_t`. -/
structure BlockTree where
  rootNode : BlockTreeNode
  leafValueSize : Nat

namespace BlockTree

/-- `libfsfat_block_tree_initialize`. -/
def create (size leafValueSize : Nat) : Except Error BlockTree := do
  let rootNode ← BlockTreeNode.create 0 size leafValueSize
  pure { rootNode, leafValueSize }

/-- The loop of `libfsfat_block_tree_get_block_descriptor_by_offset`: the
descriptor and the offset in its block, or none. Each node has smaller parts
than the node above it, so the size of the parts bounds the number of nodes on
the way to a leaf node. -/
def getAtNode (offset : Int) : Nat → BlockTreeNode → Except Error (Option (BlockDescriptor × Int))
  | _, .leaf startOffset size subNodeSize values => do
    let (descriptor, blockOffset) ←
      (BlockTreeNode.leaf startOffset size subNodeSize values).getLeafValueAtOffset offset
    pure (descriptor.map (·, blockOffset))
  | 0, .branch .. => .error .iterationLimit
  | fuel + 1, .branch startOffset size subNodeSize subNodes => do
    let subNode ←
      (BlockTreeNode.branch startOffset size subNodeSize subNodes).getSubNodeAtOffset offset
    match subNode with
    | none => pure none
    | some subNode => getAtNode offset fuel subNode

/-- `libfsfat_block_tree_get_block_descriptor_by_offset`. -/
def getBlockDescriptorByOffset (tree : BlockTree) (offset : Int) :
    Except Error (Option (BlockDescriptor × Int)) :=
  getAtNode offset tree.rootNode.subNodeSize tree.rootNode

/-- The sub node that the insert loop goes on with: the one that is there, or a
new one for the part of the offset. -/
def existingOrNewSubNode (leafValueSize startOffset subNodeSize : Nat) (offset : Int) :
    Option BlockTreeNode → Except Error BlockTreeNode
  | some subNode => .ok subNode
  | none =>
    let subNodeIndex := (offset - startOffset) / subNodeSize
    BlockTreeNode.create (startOffset + subNodeIndex * subNodeSize) subNodeSize leafValueSize

/-- The loop of `libfsfat_block_tree_insert_block_descriptor_by_offset`: the
descriptor that was there already, or none after an insert, and the changed
node. -/
def insertAtNode (leafValueSize : Nat) (offset : Int) (descriptor : BlockDescriptor) :
    Nat → BlockTreeNode → Except Error (Option BlockDescriptor × BlockTreeNode)
  | _, .leaf startOffset size subNodeSize values => do
    let node := BlockTreeNode.leaf startOffset size subNodeSize values
    let (existing, _) ← node.getLeafValueAtOffset offset
    match existing with
    | some existing => pure (some existing, node)
    | none => do
      let node ← node.setLeafValueAtOffset offset descriptor
      pure (none, node)
  | 0, .branch .. => .error .iterationLimit
  | fuel + 1, .branch startOffset size subNodeSize subNodes => do
    let node := BlockTreeNode.branch startOffset size subNodeSize subNodes
    let subNode ← node.getSubNodeAtOffset offset
    let subNode ← existingOrNewSubNode leafValueSize startOffset subNodeSize offset subNode
    let (existing, subNode) ← insertAtNode leafValueSize offset descriptor fuel subNode
    let node ← node.setSubNodeAtOffset offset subNode
    pure (existing, node)

/-- `libfsfat_block_tree_insert_block_descriptor_by_offset`. -/
def insertBlockDescriptorByOffset (tree : BlockTree) (offset : Int)
    (descriptor : BlockDescriptor) : Except Error (Option BlockDescriptor × BlockTree) := do
  let (existing, rootNode) ←
    insertAtNode tree.leafValueSize offset descriptor tree.rootNode.subNodeSize tree.rootNode
  pure (existing, { tree with rootNode })

/-! ### The map that a tree stands for -/

/-- A partial map from block numbers to descriptors. -/
abbrev BlockMap := Nat → Option BlockDescriptor

/-- An insert keeps the descriptor that a block has. -/
def BlockMap.insert (map : BlockMap) (block : Nat) (descriptor : BlockDescriptor) : BlockMap :=
  match map block with
  | some _ => map
  | none => Function.update map block (some descriptor)

/-- A node with `depth` levels of nodes under it, whose first block is `first`,
stands for the map on the blocks of its 256 parts. -/
def Represents (leafValueSize : Nat) : Nat → Nat → BlockTreeNode → BlockMap → Prop
  | 0, first, node, map =>
    ∃ size values, node = .leaf (leafValueSize * first) size leafValueSize values ∧
      ∀ i : Fin numberOfSubNodes, values i = map (first + i)
  | depth + 1, first, node, map =>
    ∃ size subNodes,
      node = .branch (leafValueSize * first) size (leafValueSize * 256 ^ (depth + 1)) subNodes ∧
      ∀ i : Fin numberOfSubNodes,
        match subNodes i with
        | none => ∀ b < 256 ^ (depth + 1), map (first + i * 256 ^ (depth + 1) + b) = none
        | some subNode =>
          subNode.size = leafValueSize * 256 ^ (depth + 1) ∧
            leafValueSize * (first + (i + 1) * 256 ^ (depth + 1)) ≤ int64Max ∧
            Represents leafValueSize depth (first + i * 256 ^ (depth + 1)) subNode map

/-- A node says nothing about the blocks outside of it. -/
theorem Represents.congr {leafValueSize depth first : Nat} {node : BlockTreeNode}
    {map map' : BlockMap} (h : Represents leafValueSize depth first node map)
    (heq : ∀ b < 256 ^ (depth + 1), map' (first + b) = map (first + b)) :
    Represents leafValueSize depth first node map' := by
  induction depth generalizing first node with
  | zero =>
    obtain ⟨size, values, rfl, hvalues⟩ := h
    refine ⟨size, values, rfl, fun i => ?_⟩
    rw [hvalues i, heq i (by simp)]
  | succ depth ih =>
    obtain ⟨size, subNodes, rfl, hsub⟩ := h
    have hpart (i : Fin numberOfSubNodes) (b : Nat) (hb : b < 256 ^ (depth + 1)) :
        map' (first + i * 256 ^ (depth + 1) + b) = map (first + i * 256 ^ (depth + 1) + b) := by
      have hi : (i : Nat) + 1 ≤ 256 := i.isLt
      have hmul : ((i : Nat) + 1) * 256 ^ (depth + 1) ≤ 256 * 256 ^ (depth + 1) :=
        Nat.mul_le_mul_right _ hi
      have hpow : 256 ^ (depth + 1 + 1) = 256 * 256 ^ (depth + 1) := by rw [pow_succ]; ring
      rw [Nat.add_assoc]
      apply heq
      rw [Nat.add_mul] at hmul
      omega
    refine ⟨size, subNodes, rfl, fun i => ?_⟩
    have hi := hsub i
    cases hnode : subNodes i with
    | none =>
      rw [hnode] at hi
      intro b hb
      rw [hpart i b hb]
      exact hi b hb
    | some subNode =>
      rw [hnode] at hi
      obtain ⟨hsize, hend, hrep⟩ := hi
      exact ⟨hsize, hend, ih hrep (hpart i)⟩

theorem Represents.startOffset {leafValueSize depth first : Nat} {node : BlockTreeNode}
    {map : BlockMap} (h : Represents leafValueSize depth first node map) :
    node.startOffset = leafValueSize * first := by
  cases depth with
  | zero => obtain ⟨size, values, rfl, _⟩ := h; rfl
  | succ depth => obtain ⟨size, subNodes, rfl, _⟩ := h; rfl

theorem Represents.subNodeSize {leafValueSize depth first : Nat} {node : BlockTreeNode}
    {map : BlockMap} (h : Represents leafValueSize depth first node map) :
    node.subNodeSize = leafValueSize * 256 ^ depth := by
  cases depth with
  | zero => obtain ⟨size, values, rfl, _⟩ := h; simp [BlockTreeNode.subNodeSize]
  | succ depth => obtain ⟨size, subNodes, rfl, _⟩ := h; rfl

theorem BlockMap.insert_of_ne (map : BlockMap) {block other : Nat} (descriptor : BlockDescriptor)
    (h : other ≠ block) : map.insert block descriptor other = map other := by
  unfold BlockMap.insert
  cases map block with
  | some existing => rfl
  | none => exact Function.update_of_ne h _ _

theorem BlockMap.insert_of_none {map : BlockMap} {block : Nat} (descriptor : BlockDescriptor)
    (h : map block = none) : map.insert block descriptor = Function.update map block descriptor := by
  simp [BlockMap.insert, h]

theorem BlockMap.insert_of_some {map : BlockMap} {block : Nat} {existing : BlockDescriptor}
    (descriptor : BlockDescriptor) (h : map block = some existing) :
    map.insert block descriptor = map := by
  simp [BlockMap.insert, h]

/-! ### New nodes -/

/-- A new node stands for every map that has nothing in its 256 parts. -/
theorem create_represents {leafValueSize size depth : Nat} (first : Nat) (hleaf : 0 < leafValueSize)
    (hsize : 0 < size) (hend : leafValueSize * first + size ≤ int64Max)
    (hdepth : BlockTreeNode.chooseSubNodeSize size leafValueSize = leafValueSize * 256 ^ depth) :
    ∃ node, BlockTreeNode.create (leafValueSize * first : Nat) size leafValueSize = .ok node ∧
      node.size = size ∧
      ∀ map : BlockMap, (∀ b < 256 ^ (depth + 1), map (first + b) = none) →
        Represents leafValueSize depth first node map := by
  unfold BlockTreeNode.create
  rw [if_neg (by omega), if_neg (by omega), if_neg (by omega)]
  dsimp only
  rw [hdepth, Int.toNat_natCast]
  cases depth with
  | zero =>
    rw [if_pos (by simp)]
    refine ⟨_, rfl, rfl, ?_⟩
    intro map hmap
    refine ⟨size, fun _ => none, by simp, fun i => ?_⟩
    exact (hmap i (by simp)).symm
  | succ depth =>
    have hpow : 1 < 256 ^ (depth + 1) := Nat.one_lt_pow (by omega) (by norm_num)
    have hne : leafValueSize * 256 ^ (depth + 1) ≠ leafValueSize := by
      have := Nat.mul_lt_mul_of_pos_left hpow hleaf
      omega
    rw [if_neg hne]
    refine ⟨_, rfl, rfl, ?_⟩
    intro map hmap
    refine ⟨size, fun _ => none, rfl, fun i => ?_⟩
    intro b hb
    have hi : (i : Nat) + 1 ≤ 256 := i.isLt
    have hmul := Nat.mul_le_mul_right (256 ^ (depth + 1)) hi
    have hpow' : 256 ^ (depth + 1 + 1) = 256 * 256 ^ (depth + 1) := by rw [pow_succ]; ring
    rw [Nat.add_assoc]
    apply hmap
    rw [Nat.add_mul] at hmul
    omega

/-! ### Looking up and inserting at a node -/

/-- The index of an offset is the number of parts before its block. -/
theorem indexAtOffset_of_block {leafValueSize depth first size offset : Nat}
    (hlower : leafValueSize * first ≤ offset) (hupper : offset < leafValueSize * first + size)
    {i : Fin numberOfSubNodes} (hi : (offset / leafValueSize - first) / 256 ^ depth = i) :
    BlockTreeNode.indexAtOffset (leafValueSize * first) size (leafValueSize * 256 ^ depth) offset =
      .ok i := by
  rw [BlockTreeNode.indexAtOffset_eq_ok_iff]
  refine ⟨by omega, by omega, ?_⟩
  rw [Int.toNat_natCast, ← Nat.div_div_eq_div_mul, Nat.sub_mul_div, hi]

/-- The new node of an insert is the one for the part of the offset. -/
theorem existingOrNewSubNode_none {leafValueSize part first size : Nat} {offset : Int}
    {i : Fin numberOfSubNodes}
    (hindex : BlockTreeNode.indexAtOffset (leafValueSize * first) size (leafValueSize * part)
      offset = .ok i) :
    existingOrNewSubNode leafValueSize (leafValueSize * first) (leafValueSize * part) offset none =
      BlockTreeNode.create (leafValueSize * (first + i * part) : Nat) (leafValueSize * part)
        leafValueSize := by
  obtain ⟨hlower, -, hquot⟩ := BlockTreeNode.indexAtOffset_eq_ok_iff.mp hindex
  have hquot' : (offset - (leafValueSize * first : Nat)) / (leafValueSize * part : Nat) =
      (i : Nat) := by
    rw [← hquot, show offset = (offset.toNat : Int) by omega, ← Nat.cast_sub (by omega),
      ← Int.natCast_div, Int.toNat_natCast]
  have hstart : ((leafValueSize * first : Nat) : Int) +
      ((i : Nat) : Int) * (leafValueSize * part : Nat) =
        (leafValueSize * (first + i * part) : Nat) := by
    push_cast
    ring
  unfold existingOrNewSubNode
  dsimp only
  rw [hquot', hstart]

/-- The offsets at which a node can be asked and changed: in the range of the
node, in one of its 256 parts, and in a part whose end offset is a 64-bit
value. -/
structure InNode (leafValueSize depth first size offset : Nat) : Prop where
  lower : leafValueSize * first ≤ offset
  upper : offset < leafValueSize * first + size
  index : (offset / leafValueSize - first) / 256 ^ depth < 256
  end_le : depth ≠ 0 →
    leafValueSize * (first + ((offset / leafValueSize - first) / 256 ^ depth + 1) * 256 ^ depth) ≤
      int64Max

/-- An offset that is in a node is in the sub node of its part. -/
theorem InNode.part {leafValueSize depth first size offset : Nat} (hleaf : 0 < leafValueSize)
    (h : InNode leafValueSize (depth + 1) first size offset) :
    InNode leafValueSize depth
      (first + (offset / leafValueSize - first) / 256 ^ (depth + 1) * 256 ^ (depth + 1))
      (leafValueSize * 256 ^ (depth + 1)) offset := by
  obtain ⟨hlower, hupper, hindex, hend⟩ := h
  have hend := hend (by omega)
  set part := 256 ^ (depth + 1) with hpart
  set block := offset / leafValueSize with hblock
  set i := (block - first) / part with hi
  have hfirst : first ≤ block := (Nat.le_div_iff_mul_le hleaf).mpr (by rwa [Nat.mul_comm])
  have hpos : 0 < part := by positivity
  have hdiv : part * i + (block - first) % part = block - first := Nat.div_add_mod _ _
  have hmod : (block - first) % part < part := Nat.mod_lt _ hpos
  have hcomm : part * i = i * part := Nat.mul_comm _ _
  have hrest : block - (first + i * part) = (block - first) % part := by omega
  have hpow : part = 256 * 256 ^ depth := by rw [hpart, pow_succ, Nat.mul_comm]
  have hquot : (block - (first + i * part)) / 256 ^ depth < 256 := by
    rw [hrest, Nat.div_lt_iff_lt_mul (by positivity), ← hpow]
    exact hmod
  refine ⟨?_, ?_, hquot, fun _ => ?_⟩
  · calc
      leafValueSize * (first + i * part) ≤ leafValueSize * block :=
        Nat.mul_le_mul_left _ (by omega)
      _ ≤ offset := Nat.mul_div_le _ _
  · have hlt : block < first + i * part + part := by omega
    rw [← Nat.mul_add, Nat.mul_comm]
    exact (Nat.div_lt_iff_lt_mul hleaf).mp hlt
  · refine le_trans (Nat.mul_le_mul_left _ ?_) hend
    have hle := Nat.mul_le_mul_right (256 ^ depth) (Nat.succ_le_of_lt hquot)
    have hsucc : (i + 1) * part = i * part + part := by ring
    have hstep : ((block - (first + i * part)) / 256 ^ depth + 1) * 256 ^ depth ≤ part :=
      hpow ▸ hle
    rw [hsucc, ← Nat.add_assoc]
    exact Nat.add_le_add_left hstep _

theorem InNode.first_le {leafValueSize depth first size offset : Nat} (hleaf : 0 < leafValueSize)
    (h : InNode leafValueSize depth first size offset) : first ≤ offset / leafValueSize :=
  (Nat.le_div_iff_mul_le hleaf).mpr (by rw [Nat.mul_comm]; exact h.lower)

/-- The part of an offset that is in a node, and its index. -/
theorem InNode.exists_index {leafValueSize depth first size offset : Nat}
    (h : InNode leafValueSize depth first size offset) :
    ∃ i : Fin numberOfSubNodes, (offset / leafValueSize - first) / 256 ^ depth = i ∧
      BlockTreeNode.indexAtOffset (leafValueSize * first) size (leafValueSize * 256 ^ depth)
        offset = .ok i :=
  ⟨⟨_, h.index⟩, rfl, indexAtOffset_of_block h.lower h.upper rfl⟩

/-- Above the sub node of an offset nothing changes but that sub node. -/
theorem represents_update_subNode {leafValueSize depth first size block : Nat}
    {subNodes : Fin numberOfSubNodes → Option BlockTreeNode} {map : BlockMap}
    {descriptor : BlockDescriptor} {subNode : BlockTreeNode} {i : Fin numberOfSubNodes}
    (hrep : Represents leafValueSize (depth + 1) first
      (.branch (leafValueSize * first) size (leafValueSize * 256 ^ (depth + 1)) subNodes) map)
    (hindex : (block - first) / 256 ^ (depth + 1) = i)
    (hsize : subNode.size = leafValueSize * 256 ^ (depth + 1))
    (hend : leafValueSize * (first + (i + 1) * 256 ^ (depth + 1)) ≤ int64Max)
    (hsub : Represents leafValueSize depth (first + i * 256 ^ (depth + 1)) subNode
      (map.insert block descriptor)) :
    Represents leafValueSize (depth + 1) first
      (.branch (leafValueSize * first) size (leafValueSize * 256 ^ (depth + 1))
        (Function.update subNodes i (some subNode)))
      (map.insert block descriptor) := by
  obtain ⟨size', subNodes', hnode, hparts⟩ := hrep
  injection hnode with _ hsize' _ hsubNodes
  subst hsize' hsubNodes
  refine ⟨size, _, rfl, fun j => ?_⟩
  by_cases hij : j = i
  · subst hij
    rw [Function.update_self]
    exact ⟨hsize, hend, hsub⟩
  · rw [Function.update_of_ne hij]
    have hframe (b : Nat) (hb : b < 256 ^ (depth + 1)) :
        map.insert block descriptor (first + j * 256 ^ (depth + 1) + b) =
          map (first + j * 256 ^ (depth + 1) + b) := by
      apply BlockMap.insert_of_ne
      intro heq
      apply hij
      apply Fin.ext
      rw [← hindex, ← heq, Nat.add_assoc, Nat.add_sub_cancel_left, Nat.mul_comm,
        Nat.mul_add_div (by positivity), Nat.div_eq_of_lt hb, Nat.add_zero]
    have hj := hparts j
    cases hnode : subNodes j with
    | none =>
      rw [hnode] at hj
      intro b hb
      rw [hframe b hb]
      exact hj b hb
    | some other =>
      rw [hnode] at hj
      obtain ⟨hsize, hend, hrep⟩ := hj
      exact ⟨hsize, hend, hrep.congr hframe⟩

/-- The sub node that an insert goes on with, the one that is there or a new one. -/
theorem subNode_represents {leafValueSize depth first size offset : Nat}
    {subNodes : Fin numberOfSubNodes → Option BlockTreeNode} {map : BlockMap}
    (hleaf : 0 < leafValueSize) (hin : InNode leafValueSize (depth + 1) first size offset)
    (hrep : Represents leafValueSize (depth + 1) first
      (.branch (leafValueSize * first) size (leafValueSize * 256 ^ (depth + 1)) subNodes) map)
    {i : Fin numberOfSubNodes} (hi : (offset / leafValueSize - first) / 256 ^ (depth + 1) = i) :
    ∃ subNode, existingOrNewSubNode leafValueSize (leafValueSize * first)
        (leafValueSize * 256 ^ (depth + 1)) offset (subNodes i) = .ok subNode ∧
      subNode.size = leafValueSize * 256 ^ (depth + 1) ∧
      Represents leafValueSize depth (first + i * 256 ^ (depth + 1)) subNode map := by
  obtain ⟨size', subNodes', hnode, hparts⟩ := hrep
  injection hnode with _ hsize' _ hsubNodes
  subst hsize' hsubNodes
  have hpart := hparts i
  cases hsub : subNodes i with
  | some subNode =>
    rw [hsub] at hpart
    exact ⟨subNode, rfl, hpart.1, hpart.2.2⟩
  | none =>
    rw [hsub] at hpart
    have hend := hin.end_le (by omega)
    rw [hi] at hend
    have hsum : leafValueSize * (first + i * 256 ^ (depth + 1)) + leafValueSize * 256 ^ (depth + 1) =
        leafValueSize * (first + (i + 1) * 256 ^ (depth + 1)) := by ring
    have hpos : 0 < leafValueSize * 256 ^ (depth + 1) := by positivity
    obtain ⟨node, hcreate, hsize, hmap⟩ :=
      create_represents (first + i * 256 ^ (depth + 1)) hleaf hpos (by omega)
        (BlockTreeNode.chooseSubNodeSize_of_pow (k := depth) hleaf (by omega))
    refine ⟨node, ?_, hsize, hmap map hpart⟩
    rw [existingOrNewSubNode_none (indexAtOffset_of_block hin.lower hin.upper hi)]
    exact hcreate

/-- An insert finds what the map has at the block of the offset, and inserts
there when the map has nothing. -/
theorem insertAtNode_spec {leafValueSize depth fuel first offset : Nat} {node : BlockTreeNode}
    {map : BlockMap} (hleaf : 0 < leafValueSize) (hfuel : depth ≤ fuel)
    (hrep : Represents leafValueSize depth first node map)
    (hin : InNode leafValueSize depth first node.size offset) (descriptor : BlockDescriptor) :
    ∃ node', insertAtNode leafValueSize offset descriptor fuel node =
        .ok (map (offset / leafValueSize), node') ∧
      node'.size = node.size ∧
      Represents leafValueSize depth first node'
        (map.insert (offset / leafValueSize) descriptor) := by
  induction depth generalizing fuel first node with
  | zero =>
    obtain ⟨size, values, rfl, hvalues⟩ := hrep
    have hfirst := hin.first_le hleaf
    obtain ⟨i, hi, hindex⟩ := hin.exists_index
    simp only [BlockTreeNode.size, pow_zero, Nat.mul_one] at hindex
    have hblock : first + (i : Nat) = offset / leafValueSize := by
      rw [pow_zero, Nat.div_one] at hi
      omega
    have hvalue : values i = map (offset / leafValueSize) := by rw [hvalues i, hblock]
    cases hmap : map (offset / leafValueSize) with
    | some existing =>
      refine ⟨.leaf (leafValueSize * first) size leafValueSize values, ?_, rfl, ?_⟩
      · cases fuel <;>
          simp [insertAtNode, BlockTreeNode.getLeafValueAtOffset, hindex, hvalue, hmap, bind,
            Except.bind, pure, Except.pure]
      · rw [BlockMap.insert_of_some descriptor hmap]
        exact ⟨size, values, rfl, hvalues⟩
    | none =>
      refine ⟨.leaf (leafValueSize * first) size leafValueSize
        (Function.update values i (some descriptor)), ?_, rfl, ?_⟩
      · cases fuel <;>
          simp [insertAtNode, BlockTreeNode.getLeafValueAtOffset, BlockTreeNode.setLeafValueAtOffset,
            hindex, hvalue, hmap, bind, Except.bind, pure, Except.pure]
      · rw [BlockMap.insert_of_none descriptor hmap]
        refine ⟨size, _, rfl, fun j => ?_⟩
        by_cases hij : j = i
        · subst hij
          rw [Function.update_self, hblock, Function.update_self]
        · rw [Function.update_of_ne hij, hvalues j, Function.update_of_ne]
          intro heq
          exact hij (Fin.ext (by omega))
  | succ depth ih =>
    obtain ⟨fuel, rfl⟩ : ∃ k, fuel = k + 1 := ⟨fuel - 1, by omega⟩
    obtain ⟨size, subNodes, rfl, hparts⟩ := id hrep
    obtain ⟨i, hi, hindex⟩ := hin.exists_index
    have hend := hin.end_le (by omega)
    have hin' := hin.part hleaf
    rw [hi] at hend hin'
    obtain ⟨subNode, hsubNode, hsize, hsub⟩ := subNode_represents hleaf hin hrep hi
    rw [← hsize] at hin'
    obtain ⟨subNode', hinsert, hsize', hsub'⟩ :=
      ih (show depth ≤ fuel by omega) hsub hin'
    refine ⟨.branch (leafValueSize * first) size (leafValueSize * 256 ^ (depth + 1))
      (Function.update subNodes i (some subNode')), ?_, rfl,
      represents_update_subNode hrep hi (hsize'.trans hsize) hend hsub'⟩
    simp only [BlockTreeNode.size] at hindex
    simp only [insertAtNode, BlockTreeNode.getSubNodeAtOffset, BlockTreeNode.setSubNodeAtOffset,
      hindex, bind, Except.bind, pure, Except.pure, hsubNode, hinsert]

/-- Where a node does not reach, an insert is an error. -/
theorem insertAtNode_error {leafValueSize depth fuel first : Nat} {offset : Int}
    {node : BlockTreeNode} {map : BlockMap} (hfuel : depth ≤ fuel)
    (hrep : Represents leafValueSize depth first node map)
    (hout : ¬ (0 ≤ offset ∧ InNode leafValueSize depth first node.size offset.toNat))
    (descriptor : BlockDescriptor) :
    ∃ e, insertAtNode leafValueSize offset descriptor fuel node = .error e := by
  by_cases hindex : ((leafValueSize * first : Nat) : Int) ≤ offset ∧
      offset < (leafValueSize * first + node.size : Nat) ∧
      (offset.toNat - leafValueSize * first) / (leafValueSize * 256 ^ depth) < numberOfSubNodes
  · obtain ⟨hlower, hupper, hlt⟩ := hindex
    have hquot : (offset.toNat / leafValueSize - first) / 256 ^ depth =
        (offset.toNat - leafValueSize * first) / (leafValueSize * 256 ^ depth) := by
      rw [← Nat.div_div_eq_div_mul, Nat.sub_mul_div]
    cases depth with
    | zero =>
      refine absurd ⟨by omega, by omega, by omega, ?_, fun h => absurd rfl h⟩ hout
      rw [hquot]
      exact hlt
    | succ depth =>
      obtain ⟨fuel, rfl⟩ : ∃ k, fuel = k + 1 := ⟨fuel - 1, by omega⟩
      obtain ⟨size, subNodes, rfl, hparts⟩ := hrep
      obtain ⟨i, hi⟩ : ∃ i : Fin numberOfSubNodes,
          (offset.toNat - leafValueSize * first) / (leafValueSize * 256 ^ (depth + 1)) = i :=
        ⟨⟨_, hlt⟩, rfl⟩
      have hok := BlockTreeNode.indexAtOffset_eq_ok_iff.mpr ⟨hlower, hupper, hi⟩
      have hend : ¬ leafValueSize * (first + (i + 1) * 256 ^ (depth + 1)) ≤ int64Max := by
        intro hend
        refine hout ⟨by omega, by omega, by omega, ?_, fun _ => ?_⟩
        · rw [hquot]
          exact hlt
        · rw [hquot, hi]
          exact hend
      have hpart := hparts i
      cases hsub : subNodes i with
      | some subNode =>
        rw [hsub] at hpart
        exact absurd hpart.2.1 hend
      | none =>
        have hcreate : existingOrNewSubNode leafValueSize (leafValueSize * first)
            (leafValueSize * 256 ^ (depth + 1)) offset none = .error .sizeOutOfBounds := by
          rw [existingOrNewSubNode_none hok]
          unfold BlockTreeNode.create
          have hsum : leafValueSize * (first + (i + 1) * 256 ^ (depth + 1)) =
              leafValueSize * (first + i * 256 ^ (depth + 1)) +
                leafValueSize * 256 ^ (depth + 1) := by ring
          rw [if_neg (by omega), if_pos (by omega)]
        refine ⟨.sizeOutOfBounds, ?_⟩
        simp only [BlockTreeNode.size] at hok
        simp only [insertAtNode, BlockTreeNode.getSubNodeAtOffset, hok, hsub, hcreate, bind,
          Except.bind, pure, Except.pure]
  · obtain ⟨e, he⟩ := BlockTreeNode.indexAtOffset_eq_error hindex
    refine ⟨e, ?_⟩
    cases depth with
    | zero =>
      obtain ⟨size, values, rfl, hvalues⟩ := hrep
      simp only [BlockTreeNode.size, pow_zero, Nat.mul_one] at he
      cases fuel <;>
        simp only [insertAtNode, BlockTreeNode.getLeafValueAtOffset, he, bind, Except.bind]
    | succ depth =>
      obtain ⟨fuel, rfl⟩ : ∃ k, fuel = k + 1 := ⟨fuel - 1, by omega⟩
      obtain ⟨size, subNodes, rfl, hparts⟩ := hrep
      simp only [BlockTreeNode.size] at he
      simp only [insertAtNode, BlockTreeNode.getSubNodeAtOffset, he, bind, Except.bind]

/-- A look up finds what the map has at the block of the offset. -/
theorem getAtNode_spec {leafValueSize depth fuel first offset : Nat} {node : BlockTreeNode}
    {map : BlockMap} (hleaf : 0 < leafValueSize) (hfuel : depth ≤ fuel)
    (hrep : Represents leafValueSize depth first node map)
    (hin : InNode leafValueSize depth first node.size offset) :
    getAtNode offset fuel node =
      .ok ((map (offset / leafValueSize)).map (·, (offset % leafValueSize : Nat))) := by
  induction depth generalizing fuel first node with
  | zero =>
    obtain ⟨size, values, rfl, hvalues⟩ := hrep
    have hfirst := hin.first_le hleaf
    obtain ⟨i, hi, hindex⟩ := hin.exists_index
    simp only [BlockTreeNode.size, pow_zero, Nat.mul_one] at hindex
    have hblock : first + (i : Nat) = offset / leafValueSize := by
      rw [pow_zero, Nat.div_one] at hi
      omega
    have hoffset : (offset : Int) - (leafValueSize * first : Nat) - (i : Nat) * leafValueSize =
        (offset % leafValueSize : Nat) := by
      have hdiv := Nat.div_add_mod offset leafValueSize
      rw [← hblock, Nat.mul_add, Nat.mul_comm leafValueSize (i : Nat)] at hdiv
      have hcast :
          ((leafValueSize * first + (i : Nat) * leafValueSize + offset % leafValueSize : Nat) :
            Int) = offset := congrArg Nat.cast hdiv
      rw [Nat.cast_add, Nat.cast_add, Nat.cast_mul (i : Nat)] at hcast
      omega
    cases fuel <;>
      simp only [getAtNode, BlockTreeNode.getLeafValueAtOffset, hindex, bind, Except.bind, pure,
        Except.pure, hvalues i, hblock, hoffset]
  | succ depth ih =>
    obtain ⟨fuel, rfl⟩ : ∃ k, fuel = k + 1 := ⟨fuel - 1, by omega⟩
    have hfirst := hin.first_le hleaf
    obtain ⟨size, subNodes, rfl, hparts⟩ := hrep
    obtain ⟨i, hi, hindex⟩ := hin.exists_index
    simp only [BlockTreeNode.size] at hindex
    have hin' := hin.part hleaf
    rw [hi] at hin'
    have hpart := hparts i
    cases hsub : subNodes i with
    | none =>
      rw [hsub] at hpart
      have hdiv := Nat.div_add_mod (offset / leafValueSize - first) (256 ^ (depth + 1))
      have hmod := Nat.mod_lt (offset / leafValueSize - first)
        (show 0 < 256 ^ (depth + 1) by positivity)
      rw [hi, Nat.mul_comm] at hdiv
      have hnone := hpart _ hmod
      rw [show first + i * 256 ^ (depth + 1) +
          (offset / leafValueSize - first) % 256 ^ (depth + 1) = offset / leafValueSize by omega]
        at hnone
      simp only [getAtNode, BlockTreeNode.getSubNodeAtOffset, hindex, hsub, bind, Except.bind,
        pure, Except.pure, hnone, Option.map_none]
    | some subNode =>
      rw [hsub] at hpart
      obtain ⟨hsize, _, hrep⟩ := hpart
      rw [← hsize] at hin'
      have hget := ih (show depth ≤ fuel by omega) hrep hin'
      simp only [getAtNode, BlockTreeNode.getSubNodeAtOffset, hindex, hsub, bind, Except.bind,
        pure, Except.pure, hget]

/-! ### The tree of a volume -/

/-- The offsets at which a tree of this size can be asked and changed. The tree
divides the volume in parts, and reaches the first 256 of them. A part that is
not a single block needs a node, whose end offset is a 64-bit value. -/
def Covers (size leafValueSize : Nat) (offset : Int) : Prop :=
  let part := BlockTreeNode.chooseSubNodeSize size leafValueSize
  0 ≤ offset ∧ offset < size ∧ offset.toNat / part < numberOfSubNodes ∧
    (part = leafValueSize ∨ (offset.toNat / part + 1) * part ≤ int64Max)

instance (size leafValueSize : Nat) (offset : Int) : Decidable (Covers size leafValueSize offset) :=
  inferInstanceAs (Decidable (_ ∧ _ ∧ _ ∧ (_ ∨ _)))

theorem covers_iff_inNode {size leafValueSize depth : Nat} (hleaf : 0 < leafValueSize)
    (hdepth : BlockTreeNode.chooseSubNodeSize size leafValueSize = leafValueSize * 256 ^ depth)
    (offset : Int) :
    Covers size leafValueSize offset ↔
      0 ≤ offset ∧ InNode leafValueSize depth 0 size offset.toNat := by
  have hquot : (offset.toNat / leafValueSize - 0) / 256 ^ depth =
      offset.toNat / (leafValueSize * 256 ^ depth) := by
    rw [Nat.sub_zero, Nat.div_div_eq_div_mul]
  have hend : leafValueSize * (0 + ((offset.toNat / leafValueSize - 0) / 256 ^ depth + 1) *
      256 ^ depth) = (offset.toNat / (leafValueSize * 256 ^ depth) + 1) *
        (leafValueSize * 256 ^ depth) := by
    rw [hquot]
    ring
  unfold Covers
  rw [hdepth]
  constructor
  · rintro ⟨h0, hsize, hindex, hpart⟩
    refine ⟨h0, by omega, by omega, by rwa [hquot], fun hne => ?_⟩
    rw [hend]
    rcases hpart with heq | hle
    · have hpow : 1 < 256 ^ depth := Nat.one_lt_pow hne (by norm_num)
      have hlt := Nat.mul_lt_mul_of_pos_left hpow hleaf
      omega
    · exact hle
  · rintro ⟨h0, hin⟩
    refine ⟨h0, ?_, ?_, ?_⟩
    · have hupper := hin.upper
      omega
    · rw [← hquot]
      exact hin.index
    · cases depth with
      | zero => exact Or.inl (by simp)
      | succ depth =>
        right
        rw [← hend]
        exact hin.end_le (by omega)

/-- A tree of this size stands for the map. -/
structure StandsFor (tree : BlockTree) (size leafValueSize : Nat) (map : BlockMap) : Prop where
  leaf_pos : 0 < leafValueSize
  leaf_eq : tree.leafValueSize = leafValueSize
  size_eq : tree.rootNode.size = size
  represents : ∃ depth,
    BlockTreeNode.chooseSubNodeSize size leafValueSize = leafValueSize * 256 ^ depth ∧
      Represents leafValueSize depth 0 tree.rootNode map

private theorem depth_le_part {leafValueSize : Nat} (hleaf : 0 < leafValueSize) (depth : Nat) :
    depth ≤ leafValueSize * 256 ^ depth := by
  have hpow : depth < 256 ^ depth := Nat.lt_pow_self (by norm_num)
  have hmul : 1 * 256 ^ depth ≤ leafValueSize * 256 ^ depth := Nat.mul_le_mul_right _ hleaf
  omega

/-- A new tree stands for the empty map. -/
theorem create_standsFor {size leafValueSize : Nat} (hleaf : 0 < leafValueSize) (hsize : 0 < size)
    (hmax : size ≤ int64Max) :
    ∃ tree, create size leafValueSize = .ok tree ∧
      tree.StandsFor size leafValueSize fun _ => none := by
  obtain ⟨depth, hdepth, _, _⟩ := BlockTreeNode.chooseSubNodeSize_spec leafValueSize hmax
  obtain ⟨node, hcreate, hnode, hmap⟩ :=
    create_represents 0 hleaf hsize (by omega) hdepth
  refine ⟨⟨node, leafValueSize⟩, ?_, hleaf, rfl, hnode, depth, hdepth, hmap _ fun _ _ => rfl⟩
  simp only [Nat.mul_zero, Nat.cast_zero] at hcreate
  simp only [create, hcreate, bind, Except.bind, pure, Except.pure]

theorem create_error {size leafValueSize : Nat}
    (h : ¬ (0 < leafValueSize ∧ 0 < size ∧ size ≤ int64Max)) :
    ∃ e, create size leafValueSize = .error e := by
  unfold create BlockTreeNode.create
  rw [if_neg (by omega)]
  by_cases hsize : size = 0 ∨ (size : Int) > int64Max - 0
  · rw [if_pos hsize]
    exact ⟨_, rfl⟩
  · rw [if_neg hsize, if_pos (by omega)]
    exact ⟨_, rfl⟩

/-- An insert at an offset that the tree covers returns what the map has at the
block of the offset, and the tree then stands for the map after the insert. -/
theorem insert_spec {tree : BlockTree} {size leafValueSize : Nat} {map : BlockMap}
    (htree : tree.StandsFor size leafValueSize map) {offset : Int}
    (hcovers : Covers size leafValueSize offset) (descriptor : BlockDescriptor) :
    ∃ tree', tree.insertBlockDescriptorByOffset offset descriptor =
        .ok (map (offset.toNat / leafValueSize), tree') ∧
      tree'.StandsFor size leafValueSize (map.insert (offset.toNat / leafValueSize) descriptor) := by
  obtain ⟨hleaf, hleafEq, hsize, depth, hdepth, hrep⟩ := htree
  obtain ⟨h0, hin⟩ := (covers_iff_inNode hleaf hdepth offset).mp hcovers
  obtain ⟨n, rfl⟩ := Int.eq_ofNat_of_zero_le h0
  rw [Int.toNat_natCast] at hin ⊢
  rw [← hsize] at hin
  have hfuel : depth ≤ tree.rootNode.subNodeSize := by
    rw [hrep.subNodeSize]
    exact depth_le_part hleaf depth
  obtain ⟨node, hinsert, hnode, hrep'⟩ := insertAtNode_spec hleaf hfuel hrep hin descriptor
  refine ⟨{ tree with rootNode := node }, ?_, hleaf, hleafEq, hnode.trans hsize, depth, hdepth,
    hrep'⟩
  simp only [insertBlockDescriptorByOffset, hleafEq, hinsert, bind, Except.bind, pure, Except.pure]

theorem insert_error {tree : BlockTree} {size leafValueSize : Nat} {map : BlockMap}
    (htree : tree.StandsFor size leafValueSize map) {offset : Int}
    (hcovers : ¬ Covers size leafValueSize offset) (descriptor : BlockDescriptor) :
    ∃ e, tree.insertBlockDescriptorByOffset offset descriptor = .error e := by
  obtain ⟨hleaf, hleafEq, hsize, depth, hdepth, hrep⟩ := htree
  rw [covers_iff_inNode hleaf hdepth, ← hsize] at hcovers
  have hfuel : depth ≤ tree.rootNode.subNodeSize := by
    rw [hrep.subNodeSize]
    exact depth_le_part hleaf depth
  obtain ⟨e, he⟩ := insertAtNode_error hfuel hrep hcovers descriptor
  refine ⟨e, ?_⟩
  simp only [insertBlockDescriptorByOffset, hleafEq, he, bind, Except.bind]

/-- A look up at an offset that the tree covers returns what the map has. -/
theorem get_spec {tree : BlockTree} {size leafValueSize : Nat} {map : BlockMap}
    (htree : tree.StandsFor size leafValueSize map) {offset : Int}
    (hcovers : Covers size leafValueSize offset) :
    tree.getBlockDescriptorByOffset offset =
      .ok ((map (offset.toNat / leafValueSize)).map
        (·, (offset.toNat % leafValueSize : Nat))) := by
  obtain ⟨hleaf, hleafEq, hsize, depth, hdepth, hrep⟩ := htree
  obtain ⟨h0, hin⟩ := (covers_iff_inNode hleaf hdepth offset).mp hcovers
  obtain ⟨n, rfl⟩ := Int.eq_ofNat_of_zero_le h0
  rw [Int.toNat_natCast] at hin ⊢
  rw [← hsize] at hin
  refine getAtNode_spec hleaf ?_ hrep hin
  rw [hrep.subNodeSize]
  exact depth_le_part hleaf depth

end BlockTree

end FsFat
