import FsFat.BlockTree

/-!
The way through the block tree from its root to a leaf node, for a look up and for an insert. The
sub node size of each node is the leaf value size times a power of 256. The exponent is stored
nowhere, but the sub nodes have a smaller one than their parent. It is at most 7 at the root of a
tree of at most `2 ^ 62` bytes, and both loops visit at most 8 nodes.
-/

namespace FsFat.BlockTree

/-- An iteration of the loop of `libfsfat_block_tree_get_block_descriptor_by_offset`, which visits
one node. The loop ends at a leaf node, or without one where there is no sub node. -/
def getStep (offset : Int) (node : BlockTreeNode) :
    Loop.Step BlockTreeNode (Except Error (Option BlockTreeNode)) :=
  match node with
  | .leaf .. => .done (.ok (some node))
  | .branch .. =>
    match node.getSubNodeAtOffset offset with
    | .error e => .done (.error e)
    | .ok none => .done (.ok none)
    | .ok (some subNode) => .next subNode

/-- An iteration of the loop of `libfsfat_block_tree_insert_block_descriptor_by_offset`, which
visits one node. The loop ends at a leaf node. -/
def insertStep (leafValueSize : Nat) (offset : Int) (node : BlockTreeNode) :
    Loop.Step BlockTreeNode (Except Error BlockTreeNode) :=
  match node with
  | .leaf .. => .done (.ok node)
  | .branch startOffset _ subNodeSize _ =>
    match node.getSubNodeAtOffset offset with
    | .error e => .done (.error e)
    | .ok subNode =>
      match existingOrNewSubNode leafValueSize startOffset subNodeSize offset subNode with
      | .error e => .done (.error e)
      | .ok subNode => .next subNode

/-- The iteration of the insert loop that visits the node creates the sub node. -/
def Creates (leafValueSize : Nat) (offset : Int) (node subNode : BlockTreeNode) : Prop :=
  node.getSubNodeAtOffset offset = .ok none ∧
    existingOrNewSubNode leafValueSize node.startOffset node.subNodeSize offset none = .ok subNode

/-- The trees of a size: a new one, and those after an insert. -/
inductive IsTree (size leafValueSize : Nat) : BlockTree → Prop where
  | create {tree : BlockTree} : create size leafValueSize = .ok tree →
      IsTree size leafValueSize tree
  | insert {tree tree' : BlockTree} {offset : Int} {descriptor : BlockDescriptor}
      {existing : Option BlockDescriptor} : IsTree size leafValueSize tree →
      tree.insertBlockDescriptorByOffset offset descriptor = .ok (existing, tree') →
      IsTree size leafValueSize tree'

/-- The offset is in the range of the node. -/
def InSpan (node : BlockTreeNode) (offset : Int) : Prop :=
  (node.startOffset : Int) ≤ offset ∧ offset < (node.startOffset + node.size : Nat)

/-- The sub node has the offset in its range, its range is in one of the parts of the node, and
its parts are a smaller power of 256 of the leaf value size than those of the node. -/
structure IsSubNodeFor (leafValueSize : Nat) (offset : Int) (node subNode : BlockTreeNode) :
    Prop where
  inSpan : InSpan subNode offset
  inPart : ∃ i : Fin numberOfSubNodes,
    node.startOffset + i * node.subNodeSize ≤ subNode.startOffset ∧
      subNode.startOffset + subNode.size ≤ node.startOffset + (i + 1) * node.subNodeSize
  exponent_lt : ∃ k k', node.subNodeSize = leafValueSize * 256 ^ k ∧
    subNode.subNodeSize = leafValueSize * 256 ^ k' ∧ k' < k

/-! ### The nodes of a tree -/

theorem IsTree.standsFor {size leafValueSize : Nat} (hleaf : 0 < leafValueSize) (hsize : 0 < size)
    (hmax : size ≤ int64Max) {tree : BlockTree} (htree : IsTree size leafValueSize tree) :
    ∃ map, tree.StandsFor size leafValueSize map := by
  induction htree with
  | create hcreate =>
    obtain ⟨tree', hcreate', hempty⟩ := create_standsFor hleaf hsize hmax
    obtain rfl := Except.ok.inj (hcreate'.symm.trans hcreate)
    exact ⟨_, hempty⟩
  | @insert tree tree' offset descriptor existing _ hinsert ih =>
    obtain ⟨map, hstands⟩ := ih
    by_cases hcovers : Covers size leafValueSize offset
    · obtain ⟨tree₁, hinsert', hstands'⟩ := insert_spec hstands hcovers descriptor
      obtain ⟨-, rfl⟩ := Prod.mk.inj (Except.ok.inj (hinsert'.symm.trans hinsert))
      exact ⟨_, hstands'⟩
    · obtain ⟨e, he⟩ := insert_error hstands hcovers descriptor
      cases he.symm.trans hinsert

/-- The node that is made for a part starts and ends with the part, and stands for what the map
has there, which is nothing. -/
theorem newSubNode_represents {leafValueSize depth first size : Nat} {offset : Int}
    (hleaf : 0 < leafValueSize) {i : Fin numberOfSubNodes} {subNode : BlockTreeNode}
    (hindex : BlockTreeNode.indexAtOffset (leafValueSize * first) size
      (leafValueSize * 256 ^ (depth + 1)) offset = .ok i)
    (hnew : existingOrNewSubNode leafValueSize (leafValueSize * first)
      (leafValueSize * 256 ^ (depth + 1)) offset none = .ok subNode) :
    subNode.size = leafValueSize * 256 ^ (depth + 1) ∧
      ∀ map : BlockMap, (∀ b < 256 ^ (depth + 1), map (first + i * 256 ^ (depth + 1) + b) = none) →
        Represents leafValueSize depth (first + i * 256 ^ (depth + 1)) subNode map := by
  have hpos : 0 < leafValueSize * 256 ^ (depth + 1) := by positivity
  rw [existingOrNewSubNode_none hindex] at hnew
  have hend : leafValueSize * (first + i * 256 ^ (depth + 1)) + leafValueSize * 256 ^ (depth + 1) ≤
      int64Max := by
    by_contra hgt
    unfold BlockTreeNode.create at hnew
    rw [if_neg (by omega), if_pos (by omega)] at hnew
    cases hnew
  obtain ⟨node, hcreate, hsize, hmap⟩ :=
    create_represents (first + i * 256 ^ (depth + 1)) hleaf hpos hend
      (BlockTreeNode.chooseSubNodeSize_of_pow hleaf (by omega))
  obtain rfl := Except.ok.inj (hcreate.symm.trans hnew)
  exact ⟨hsize, hmap⟩

theorem getSubNodeAtOffset_branch (startOffset size subNodeSize : Nat)
    (subNodes : Fin numberOfSubNodes → Option BlockTreeNode) (offset : Int) :
    (BlockTreeNode.branch startOffset size subNodeSize subNodes).getSubNodeAtOffset offset =
      (BlockTreeNode.indexAtOffset startOffset size subNodeSize offset).map subNodes := by
  simp only [BlockTreeNode.getSubNodeAtOffset]
  cases BlockTreeNode.indexAtOffset startOffset size subNodeSize offset <;> rfl

/-- An iteration of the insert loop is the last, or goes to a node that has one level less under
it. -/
theorem insertStep_represents {leafValueSize depth first : Nat} (hleaf : 0 < leafValueSize)
    {node : BlockTreeNode} {map : BlockMap} (hrep : Represents leafValueSize depth first node map)
    (offset : Int) :
    (∃ result, insertStep leafValueSize offset node = .done result) ∨
      ∃ depth' first' subNode, depth = depth' + 1 ∧
        insertStep leafValueSize offset node = .next subNode ∧
        Represents leafValueSize depth' first' subNode map := by
  cases depth with
  | zero =>
    obtain ⟨size, values, rfl, -⟩ := hrep
    exact .inl ⟨_, rfl⟩
  | succ depth =>
    obtain ⟨size, subNodes, rfl, hparts⟩ := hrep
    simp only [insertStep, getSubNodeAtOffset_branch]
    cases hindex : BlockTreeNode.indexAtOffset (leafValueSize * first) size
        (leafValueSize * 256 ^ (depth + 1)) offset with
    | error e => exact .inl ⟨_, rfl⟩
    | ok i =>
      have hpart := hparts i
      simp only [Except.map]
      cases hsub : subNodes i with
      | some subNode =>
        rw [hsub] at hpart
        exact .inr ⟨depth, _, subNode, rfl, rfl, hpart.2.2⟩
      | none =>
        rw [hsub] at hpart
        cases hnew : existingOrNewSubNode leafValueSize (leafValueSize * first)
            (leafValueSize * 256 ^ (depth + 1)) offset none with
        | error e => exact .inl ⟨_, rfl⟩
        | ok subNode =>
          exact .inr ⟨depth, _, subNode, rfl, rfl,
            (newSubNode_represents hleaf hindex hnew).2 map hpart⟩

/-- An insert goes where a look up goes. -/
theorem insertStep_of_getStep {leafValueSize : Nat} {offset : Int} {node subNode : BlockTreeNode}
    (h : getStep offset node = .next subNode) :
    insertStep leafValueSize offset node = .next subNode := by
  cases node with
  | leaf => cases h
  | branch startOffset size subNodeSize subNodes =>
    simp only [getStep] at h
    split at h
    · cases h
    · cases h
    · next hget =>
      injection h with h
      subst h
      simp only [insertStep, hget, existingOrNewSubNode]

/-- An iteration of the look up loop, in the same way. -/
theorem getStep_represents {leafValueSize depth first : Nat} (hleaf : 0 < leafValueSize)
    {node : BlockTreeNode} {map : BlockMap} (hrep : Represents leafValueSize depth first node map)
    (offset : Int) :
    (∃ result, getStep offset node = .done result) ∨
      ∃ depth' first' subNode, depth = depth' + 1 ∧ getStep offset node = .next subNode ∧
        Represents leafValueSize depth' first' subNode map := by
  cases hget : getStep offset node with
  | done result => exact .inl ⟨result, rfl⟩
  | next subNode =>
    have hinsert : insertStep leafValueSize offset node = .next subNode :=
      insertStep_of_getStep hget
    rcases insertStep_represents hleaf hrep offset with
      ⟨result, hdone⟩ | ⟨depth', first', subNode', hdepth, hnext, hsub⟩
    · cases hdone.symm.trans hinsert
    · injection hnext.symm.trans hinsert with heq
      exact .inr ⟨depth', first', subNode, hdepth, rfl, heq ▸ hsub⟩

/-- A loop that goes down a level with each iteration ends after those that are under the node
and the node itself. -/
theorem run_of_represents {β : Type} {leafValueSize : Nat} {map : BlockMap}
    {step : BlockTreeNode → Loop.Step BlockTreeNode β}
    (hstep : ∀ depth first node, Represents leafValueSize depth first node map →
      (∃ result, step node = .done result) ∨
        ∃ depth' first' subNode, depth = depth' + 1 ∧ step node = .next subNode ∧
          Represents leafValueSize depth' first' subNode map)
    {depth first : Nat} {node : BlockTreeNode}
    (hrep : Represents leafValueSize depth first node map) :
    ∃ result, Loop.run step (depth + 1) node = .done result := by
  induction depth generalizing first node with
  | zero =>
    rcases hstep 0 first node hrep with ⟨result, hdone⟩ | ⟨depth', _, _, hdepth, -⟩
    · exact ⟨result, Loop.run_succ_done hdone 0⟩
    · omega
  | succ depth ih =>
    rcases hstep (depth + 1) first node hrep with
      ⟨result, hdone⟩ | ⟨depth', first', subNode, hdepth, hnext, hsub⟩
    · exact ⟨result, Loop.run_succ_done hdone (depth + 1)⟩
    · obtain rfl : depth = depth' := by omega
      obtain ⟨result, hrun⟩ := ih hsub
      exact ⟨result, (Loop.run_succ_next hnext (depth + 1)).trans hrun⟩

/-- Every node that the insert loop visits has parts of a power of 256 of the leaf value size. -/
theorem represents_of_reachable {leafValueSize : Nat} (hleaf : 0 < leafValueSize) {offset : Int}
    {map : BlockMap} {root node : BlockTreeNode}
    (hreach : Loop.Reachable (insertStep leafValueSize offset) root node)
    (hrep : ∃ depth first, Represents leafValueSize depth first root map) :
    ∃ depth first, Represents leafValueSize depth first node map := by
  apply hreach.invariant (I := fun node =>
    ∃ depth first, Represents leafValueSize depth first node map) hrep
  rintro node node' ⟨depth, first, hnode⟩ hnext
  rcases insertStep_represents hleaf hnode offset with ⟨result, hdone⟩ | ⟨_, _, _, -, hnext', hsub⟩
  · cases hdone.symm.trans hnext
  · injection hnext'.symm.trans hnext with heq
    subst heq
    exact ⟨_, _, hsub⟩

/-- A created node is in one part of its parent, the one of the offset. -/
theorem Creates.isSubNodeFor {leafValueSize depth first : Nat} (hleaf : 0 < leafValueSize)
    {offset : Int} {node subNode : BlockTreeNode} {map : BlockMap}
    (hcreates : Creates leafValueSize offset node subNode)
    (hrep : Represents leafValueSize depth first node map) :
    IsSubNodeFor leafValueSize offset node subNode := by
  obtain ⟨hget, hnew⟩ := hcreates
  cases depth with
  | zero =>
    obtain ⟨size, values, rfl, -⟩ := hrep
    cases hget
  | succ depth =>
    obtain ⟨size, subNodes, rfl, hparts⟩ := hrep
    rw [getSubNodeAtOffset_branch] at hget
    obtain ⟨i, hindex, hsub⟩ := map_eq_ok_iff.mp hget
    obtain ⟨hsize, hmap⟩ := newSubNode_represents hleaf hindex hnew
    have hpart := hparts i
    rw [hsub] at hpart
    have hchild := hmap map hpart
    obtain ⟨hlower, -, hquot⟩ := BlockTreeNode.indexAtOffset_eq_ok_iff.mp hindex
    have hstart : subNode.startOffset =
        leafValueSize * first + i * (leafValueSize * 256 ^ (depth + 1)) := by
      rw [hchild.startOffset]
      ring
    set part := leafValueSize * 256 ^ (depth + 1) with hpartDef
    have hpos : 0 < part := by positivity
    have hdiv := Nat.div_add_mod (offset.toNat - leafValueSize * first) part
    have hmod := Nat.mod_lt (offset.toNat - leafValueSize * first) hpos
    rw [hquot, Nat.mul_comm] at hdiv
    refine ⟨⟨?_, ?_⟩, ⟨i, ?_, ?_⟩, depth + 1, depth, rfl, hchild.subNodeSize, Nat.lt_succ_self _⟩
    · rw [hstart]
      omega
    · rw [hstart, hsize]
      omega
    · exact hstart.ge
    · rw [hstart, hsize, Nat.succ_mul]
      exact (Nat.add_assoc _ _ _).le

/-! ### The exponent of the root -/

/-- The products of the loop are less than the size. -/
theorem mul_lt_of_div_gt {size subNodeSize : Nat} (h : size / subNodeSize > numberOfSubNodes) :
    subNodeSize * numberOfSubNodes < size := by
  have hle := Nat.div_mul_le_self size subNodeSize
  have hpos : 0 < subNodeSize := by
    rcases Nat.eq_zero_or_pos subNodeSize with rfl | hpos
    · rw [Nat.div_zero] at h
      omega
    · exact hpos
  calc
    subNodeSize * numberOfSubNodes = numberOfSubNodes * subNodeSize := Nat.mul_comm _ _
    _ < size / subNodeSize * subNodeSize := Nat.mul_lt_mul_of_pos_right h hpos
    _ ≤ size := hle

/-- A smaller power is not enough. -/
theorem exponent_min {size leafValueSize depth : Nat} (hleaf : 0 < leafValueSize)
    (hsize : size ≤ int64Max)
    (hdepth : BlockTreeNode.chooseSubNodeSize size leafValueSize = leafValueSize * 256 ^ depth) :
    ∀ j < depth, 256 < size / (leafValueSize * 256 ^ j) := by
  obtain ⟨k, hk, -, hmin⟩ := BlockTreeNode.chooseSubNodeSize_spec leafValueSize hsize
  have hpow : 256 ^ depth = 256 ^ k := Nat.eq_of_mul_eq_mul_left hleaf (hdepth.symm.trans hk)
  obtain rfl := Nat.pow_right_injective (by norm_num : 2 ≤ 256) hpow
  exact hmin

theorem exponent_le {size leafValueSize k : Nat} (hleaf : 0 < leafValueSize)
    (hmax : size ≤ 2 ^ 62) (hmin : ∀ j < k, 256 < size / (leafValueSize * 256 ^ j)) : k ≤ 7 := by
  by_contra hgt
  have hlt := mul_lt_of_div_gt (hmin 7 (by omega))
  have hpow : (1 : Nat) * 256 ^ 7 ≤ leafValueSize * 256 ^ 7 := Nat.mul_le_mul_right _ hleaf
  have hvalue : (1 : Nat) * 256 ^ 7 = 2 ^ 56 := by norm_num
  simp only [numberOfSubNodes] at hlt
  omega

/-! ### The loops of the two functions -/

theorem getAtNode_leaf {startOffset size subNodeSize : Nat}
    {values : Fin numberOfSubNodes → Option BlockDescriptor} (offset : Int) (fuel : Nat) :
    getAtNode offset fuel (.leaf startOffset size subNodeSize values) =
      getAtNode offset 0 (.leaf startOffset size subNodeSize values) := by
  cases fuel <;> rfl

theorem insertAtNode_leaf {startOffset size subNodeSize : Nat}
    {values : Fin numberOfSubNodes → Option BlockDescriptor} (leafValueSize : Nat) (offset : Int)
    (descriptor : BlockDescriptor) (fuel : Nat) :
    insertAtNode leafValueSize offset descriptor fuel (.leaf startOffset size subNodeSize values) =
      insertAtNode leafValueSize offset descriptor 0
        (.leaf startOffset size subNodeSize values) := by
  cases fuel <;> rfl

/-- What is looked up below a node is in the leaf node to which the loop comes. -/
theorem getAtNode_of_run {offset : Int} {n : Nat} {node : BlockTreeNode}
    {result : Except Error (Option BlockTreeNode)}
    (h : Loop.run (getStep offset) n node = .done result) :
    getAtNode offset n node = result >>= fun leafNode =>
      match leafNode with
      | none => pure none
      | some leafNode => getAtNode offset 0 leafNode := by
  induction n generalizing node with
  | zero => cases h
  | succ n ih =>
    cases node with
    | leaf startOffset size subNodeSize values =>
      injection h with h
      subst h
      exact getAtNode_leaf offset (n + 1)
    | branch startOffset size subNodeSize subNodes =>
      rw [getAtNode]
      simp only [Loop.run, getStep] at h
      cases hget : (BlockTreeNode.branch startOffset size subNodeSize
          subNodes).getSubNodeAtOffset offset with
      | error e =>
        rw [hget] at h
        injection h with h
        subst h
        rfl
      | ok subNode =>
        rw [hget] at h
        cases subNode with
        | none =>
          injection h with h
          subst h
          rfl
        | some subNode => exact ih h

/-- What an insert below a node finds is in the leaf node to which the loop comes. -/
theorem insertAtNode_of_run {leafValueSize n : Nat} {offset : Int} {node : BlockTreeNode}
    {result : Except Error BlockTreeNode} (descriptor : BlockDescriptor)
    (h : Loop.run (insertStep leafValueSize offset) n node = .done result) :
    (insertAtNode leafValueSize offset descriptor n node).map Prod.fst =
      result >>= fun leafNode =>
        (insertAtNode leafValueSize offset descriptor 0 leafNode).map Prod.fst := by
  induction n generalizing node with
  | zero => cases h
  | succ n ih =>
    cases node with
    | leaf startOffset size subNodeSize values =>
      injection h with h
      subst h
      rw [insertAtNode_leaf]
      rfl
    | branch startOffset size subNodeSize subNodes =>
      rw [insertAtNode]
      simp only [Loop.run, insertStep, getSubNodeAtOffset_branch] at h
      simp only [getSubNodeAtOffset_branch, BlockTreeNode.setSubNodeAtOffset]
      cases hindex : BlockTreeNode.indexAtOffset startOffset size subNodeSize offset with
      | error e =>
        rw [hindex] at h
        injection h with h
        subst h
        rfl
      | ok i =>
        simp only [hindex, Except.map] at h
        cases hnew : existingOrNewSubNode leafValueSize startOffset subNodeSize offset
            (subNodes i) with
        | error e =>
          rw [hnew] at h
          injection h with h
          subst h
          simp only [Except.map, bind, Except.bind, hnew]
        | ok subNode =>
          rw [hnew] at h
          rw [← ih h]
          simp only [Except.map, bind, Except.bind, hnew, pure, Except.pure]
          cases insertAtNode leafValueSize offset descriptor n subNode <;> rfl

theorem standsFor_root {size leafValueSize : Nat} {tree : BlockTree} {map : BlockMap}
    (h : tree.StandsFor size leafValueSize map) (hmax : size ≤ 2 ^ 62) :
    ∃ depth ≤ 7, depth < tree.rootNode.subNodeSize ∧
      Represents leafValueSize depth 0 tree.rootNode map := by
  obtain ⟨hleaf, -, -, depth, hdepth, hrep⟩ := h
  have hsize : size ≤ int64Max := le_trans hmax (by norm_num [int64Max])
  refine ⟨depth, exponent_le hleaf hmax (exponent_min hleaf hsize hdepth), ?_, hrep⟩
  rw [hrep.subNodeSize]
  calc
    depth < 256 ^ depth := Nat.lt_pow_self (by norm_num)
    _ ≤ leafValueSize * 256 ^ depth := Nat.le_mul_of_pos_left _ hleaf

/-- A look up visits at most 8 nodes, and its result is that of the leaf node to which it comes. -/
theorem getBlockDescriptorByOffset_descent {size leafValueSize : Nat} (hleaf : 0 < leafValueSize)
    (hsize : 0 < size) (hmax : size ≤ 2 ^ 62) {tree : BlockTree}
    (htree : IsTree size leafValueSize tree) (offset : Int) :
    ∃ result, Loop.run (getStep offset) 8 tree.rootNode = .done result ∧
      tree.getBlockDescriptorByOffset offset = result >>= fun leafNode =>
        match leafNode with
        | none => pure none
        | some leafNode => getAtNode offset 0 leafNode := by
  obtain ⟨map, hstands⟩ := htree.standsFor hleaf hsize (hmax.trans (by norm_num [int64Max]))
  obtain ⟨depth, hdepth, hfuel, hrep⟩ := standsFor_root hstands hmax
  obtain ⟨result, hrun⟩ := run_of_represents (fun _ _ _ h => getStep_represents hleaf h offset) hrep
  exact ⟨result, Loop.run_mono hrun (by omega), getAtNode_of_run (Loop.run_mono hrun hfuel)⟩

/-- An insert visits at most 8 nodes, and what it finds is in the leaf node to which it comes. -/
theorem insertBlockDescriptorByOffset_descent {size leafValueSize : Nat}
    (hleaf : 0 < leafValueSize) (hsize : 0 < size) (hmax : size ≤ 2 ^ 62) {tree : BlockTree}
    (htree : IsTree size leafValueSize tree) (offset : Int) (descriptor : BlockDescriptor) :
    ∃ result, Loop.run (insertStep leafValueSize offset) 8 tree.rootNode = .done result ∧
      (tree.insertBlockDescriptorByOffset offset descriptor).map Prod.fst =
        result >>= fun leafNode =>
          (insertAtNode leafValueSize offset descriptor 0 leafNode).map Prod.fst := by
  obtain ⟨map, hstands⟩ := htree.standsFor hleaf hsize (hmax.trans (by norm_num [int64Max]))
  obtain ⟨depth, hdepth, hfuel, hrep⟩ := standsFor_root hstands hmax
  obtain ⟨result, hrun⟩ :=
    run_of_represents (fun _ _ _ h => insertStep_represents hleaf h offset) hrep
  refine ⟨result, Loop.run_mono hrun (by omega), ?_⟩
  rw [← insertAtNode_of_run descriptor (Loop.run_mono hrun hfuel)]
  unfold insertBlockDescriptorByOffset
  rw [hstands.leaf_eq]
  cases insertAtNode leafValueSize offset descriptor tree.rootNode.subNodeSize tree.rootNode <;> rfl

/-- An insert that fails ends at the root, before it has created a node. -/
theorem insertStep_root_of_error {size leafValueSize : Nat} (hleaf : 0 < leafValueSize)
    (hsize : 0 < size) (hmax : size ≤ 2 ^ 62) {tree : BlockTree}
    (htree : IsTree size leafValueSize tree) {offset : Int} {descriptor : BlockDescriptor}
    {e : Error} (herror : tree.insertBlockDescriptorByOffset offset descriptor = .error e) :
    ∃ result, insertStep leafValueSize offset tree.rootNode = .done result := by
  have hsize' : size ≤ int64Max := hmax.trans (by norm_num [int64Max])
  obtain ⟨map, hstands⟩ := htree.standsFor hleaf hsize hsize'
  have hcovers : ¬ Covers size leafValueSize offset := by
    intro hcovers
    obtain ⟨tree', hinsert, -⟩ := insert_spec hstands hcovers descriptor
    cases hinsert.symm.trans herror
  obtain ⟨-, -, hrootSize, depth, hdepth, hrep⟩ := hstands
  cases depth with
  | zero =>
    obtain ⟨size', values, hroot, -⟩ := hrep
    exact ⟨.ok tree.rootNode, by rw [hroot]; rfl⟩
  | succ depth =>
    obtain ⟨size', subNodes, hroot, -⟩ := hrep
    rw [hroot] at hrootSize ⊢
    obtain rfl : size' = size := hrootSize
    simp only [insertStep, getSubNodeAtOffset_branch]
    cases hindex : BlockTreeNode.indexAtOffset (leafValueSize * 0) size'
        (leafValueSize * 256 ^ (depth + 1)) offset with
    | error e => exact ⟨_, rfl⟩
    | ok i =>
      -- The offset is in a part, which then ends before `INT64_MAX`.
      refine absurd ?_ hcovers
      obtain ⟨hlower, hupper, hquot⟩ := BlockTreeNode.indexAtOffset_eq_ok_iff.mp hindex
      rw [Nat.mul_zero, Nat.sub_zero] at hquot
      have hmin := exponent_min hleaf hsize' hdepth depth (Nat.lt_succ_self depth)
      have hpart := mul_lt_of_div_gt hmin
      have hpart' : leafValueSize * 256 ^ depth * numberOfSubNodes =
          leafValueSize * 256 ^ (depth + 1) := by
        rw [pow_succ, Nat.mul_assoc]
      have hstart := Nat.div_mul_le_self offset.toNat (leafValueSize * 256 ^ (depth + 1))
      unfold Covers
      rw [hdepth]
      dsimp only
      rw [hquot] at hstart ⊢
      have hmaxValue : int64Max = 9223372036854775807 := rfl
      refine ⟨by omega, by omega, i.isLt, .inr ?_⟩
      rw [Nat.succ_mul]
      omega

/-- In a tree of 1 to `2 ^ 62` bytes the loop for the sub node size comes, without a product of
more than 64 bits, to the least power of 256 of the leaf value size that divides the tree in at
most 256 whole parts. Every node that an insert creates is a sub node for its offset, and an
insert and a look up visit at most 8 nodes. -/
theorem block_tree_nodes_well_formed {size leafValueSize : Nat} (hsize : 1 ≤ size)
    (hmax : size ≤ 2 ^ 62) (hleaf : 1 ≤ leafValueSize) :
    (∃ k, Loop.Returns (BlockTreeNode.subNodeSizeStep size) leafValueSize
        (leafValueSize * 256 ^ k) ∧
      IsLeast {subNodeSize | (∃ j, subNodeSize = leafValueSize * 256 ^ j) ∧
        size / subNodeSize ≤ numberOfSubNodes} (leafValueSize * 256 ^ k)) ∧
    (∀ subNodeSize, Loop.Reachable (BlockTreeNode.subNodeSizeStep size) leafValueSize
        subNodeSize → size / subNodeSize > numberOfSubNodes →
      subNodeSize * numberOfSubNodes < 2 ^ 64) ∧
    ∀ tree, IsTree size leafValueSize tree → ∀ offset,
      (∀ node subNode, Loop.Reachable (insertStep leafValueSize offset) tree.rootNode node →
        Creates leafValueSize offset node subNode →
          IsSubNodeFor leafValueSize offset node subNode) ∧
      (∃ result, Loop.run (insertStep leafValueSize offset) 8 tree.rootNode = .done result) ∧
      ∃ result, Loop.run (getStep offset) 8 tree.rootNode = .done result := by
  have hsize' : size ≤ int64Max := hmax.trans (by norm_num [int64Max])
  refine ⟨?_, ?_, ?_⟩
  · obtain ⟨k, hk, hle, hmin⟩ := BlockTreeNode.chooseSubNodeSize_spec leafValueSize hsize'
    have hreturns := BlockTreeNode.returns_chooseSubNodeSize leafValueSize hsize'
    rw [hk] at hreturns
    refine ⟨k, hreturns, ⟨⟨k, rfl⟩, hle⟩, ?_⟩
    rintro _ ⟨⟨j, rfl⟩, hj⟩
    apply Nat.mul_le_mul_left
    apply Nat.pow_le_pow_right (by norm_num)
    by_contra hlt
    exact Nat.not_lt.mpr hj (hmin j (by omega))
  · intro subNodeSize _ hgt
    have hlt := mul_lt_of_div_gt hgt
    omega
  · intro tree htree offset
    obtain ⟨insertResult, hinsert, -⟩ :=
      insertBlockDescriptorByOffset_descent hleaf hsize hmax htree offset ⟨0⟩
    obtain ⟨getResult, hget, -⟩ :=
      getBlockDescriptorByOffset_descent hleaf hsize hmax htree offset
    obtain ⟨map, hstands⟩ := htree.standsFor hleaf hsize hsize'
    obtain ⟨rootDepth, -, -, hroot⟩ := standsFor_root hstands hmax
    refine ⟨?_, ⟨insertResult, hinsert⟩, ⟨getResult, hget⟩⟩
    intro node subNode hreach hcreates
    obtain ⟨depth, first, hrep⟩ := represents_of_reachable hleaf hreach ⟨rootDepth, 0, hroot⟩
    exact hcreates.isSubNodeFor hleaf hrep

/-- The greatest tree of single bytes. -/
theorem block_tree_nodes_well_formed_greatest :
    (∃ k, Loop.Returns (BlockTreeNode.subNodeSizeStep (2 ^ 62)) 1 (1 * 256 ^ k) ∧
      IsLeast {subNodeSize | (∃ j, subNodeSize = 1 * 256 ^ j) ∧
        2 ^ 62 / subNodeSize ≤ numberOfSubNodes} (1 * 256 ^ k)) ∧
    (∀ subNodeSize, Loop.Reachable (BlockTreeNode.subNodeSizeStep (2 ^ 62)) 1 subNodeSize →
      2 ^ 62 / subNodeSize > numberOfSubNodes → subNodeSize * numberOfSubNodes < 2 ^ 64) ∧
    ∀ tree, IsTree (2 ^ 62) 1 tree → ∀ offset,
      (∀ node subNode, Loop.Reachable (insertStep 1 offset) tree.rootNode node →
        Creates 1 offset node subNode → IsSubNodeFor 1 offset node subNode) ∧
      (∃ result, Loop.run (insertStep 1 offset) 8 tree.rootNode = .done result) ∧
      ∃ result, Loop.run (getStep offset) 8 tree.rootNode = .done result :=
  block_tree_nodes_well_formed (by norm_num) le_rfl le_rfl

end FsFat.BlockTree
