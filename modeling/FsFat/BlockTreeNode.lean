import FsFat.Definitions
import FsFat.Lib.Loop

/-!
The nodes of the block tree: `libfsfat_block_tree_node.c`. A node covers a
range of byte offsets and divides it in at most 256 parts of one size. The
parts of a leaf node are single blocks; the parts of a branch node are ranges
that get a node of their own when a block in them is first used.
-/

namespace FsFat

/-- `libfsfat_block_descriptor_t`. -/
structure BlockDescriptor where
  clusterNumber : Nat
  deriving DecidableEq, Repr

/-- `libfsfat_block_tree_node_t`. The flag `is_leaf_node` is the constructor:
the sub nodes array holds block descriptors in a leaf node and nodes in a
branch node. The end offset is the start offset plus the size. -/
inductive BlockTreeNode where
  | leaf (startOffset size subNodeSize : Nat)
      (values : Fin numberOfSubNodes → Option BlockDescriptor)
  | branch (startOffset size subNodeSize : Nat)
      (subNodes : Fin numberOfSubNodes → Option BlockTreeNode)

namespace BlockTreeNode

def startOffset : BlockTreeNode → Nat
  | .leaf startOffset .. => startOffset
  | .branch startOffset .. => startOffset

def size : BlockTreeNode → Nat
  | .leaf _ size .. => size
  | .branch _ size .. => size

def subNodeSize : BlockTreeNode → Nat
  | .leaf _ _ subNodeSize _ => subNodeSize
  | .branch _ _ subNodeSize _ => subNodeSize

/-- The body of the loop that chooses the sub node size. The product is taken
in 64 bits. -/
def subNodeSizeStep (size subNodeSize : Nat) : Loop.Step Nat Nat :=
  if size / subNodeSize > numberOfSubNodes then
    .next (subNodeSize * numberOfSubNodes % 2 ^ 64)
  else .done subNodeSize

/-- The sub node size that a node of this size gets. -/
def chooseSubNodeSize (size leafValueSize : Nat) : Nat :=
  match Loop.run (subNodeSizeStep size) (size + 1) leafValueSize with
  | .done subNodeSize => subNodeSize
  | .next subNodeSize => subNodeSize

/-- `libfsfat_block_tree_node_initialize`. -/
def create (offset : Int) (size leafValueSize : Nat) : Except Error BlockTreeNode :=
  if offset < 0 then .error .offsetOutOfBounds
  else if size = 0 ∨ (size : Int) > int64Max - offset then .error .sizeOutOfBounds
  else if leafValueSize = 0 then .error .leafValueSizeOutOfBounds
  else
    let subNodeSize := chooseSubNodeSize size leafValueSize
    if subNodeSize = leafValueSize then
      .ok (.leaf offset.toNat size subNodeSize fun _ => none)
    else .ok (.branch offset.toNat size subNodeSize fun _ => none)

/-- The index of the part that holds an offset, with the checks that the four
functions below make before they use the array. -/
def indexAtOffset (startOffset size subNodeSize : Nat) (offset : Int) :
    Except Error (Fin numberOfSubNodes) :=
  if offset < startOffset ∨ offset ≥ (startOffset + size : Nat) then .error .offsetOutOfBounds
  else
    let index := (offset.toNat - startOffset) / subNodeSize
    if index > int32Max then .error .subNodeIndexOutOfBounds
    else if h : index < numberOfSubNodes then .ok ⟨index, h⟩
    else .error .arrayIndexOutOfBounds

/-- `libfsfat_block_tree_node_get_sub_node_at_offset`. -/
def getSubNodeAtOffset (node : BlockTreeNode) (offset : Int) :
    Except Error (Option BlockTreeNode) :=
  match node with
  | .leaf .. => .error .notBranchNode
  | .branch startOffset size subNodeSize subNodes => do
    let index ← indexAtOffset startOffset size subNodeSize offset
    pure (subNodes index)

/-- `libfsfat_block_tree_node_set_sub_node_at_offset`. -/
def setSubNodeAtOffset (node : BlockTreeNode) (offset : Int) (subNode : BlockTreeNode) :
    Except Error BlockTreeNode :=
  match node with
  | .leaf .. => .error .notBranchNode
  | .branch startOffset size subNodeSize subNodes => do
    let index ← indexAtOffset startOffset size subNodeSize offset
    pure (.branch startOffset size subNodeSize (Function.update subNodes index (some subNode)))

/-- `libfsfat_block_tree_node_get_leaf_value_at_offset`: the descriptor, and
the offset relative to the start of the block. -/
def getLeafValueAtOffset (node : BlockTreeNode) (offset : Int) :
    Except Error (Option BlockDescriptor × Int) :=
  match node with
  | .branch .. => .error .notLeafNode
  | .leaf startOffset size subNodeSize values => do
    let index ← indexAtOffset startOffset size subNodeSize offset
    pure (values index, offset - startOffset - index * subNodeSize)

/-- `libfsfat_block_tree_node_set_leaf_value_at_offset`. -/
def setLeafValueAtOffset (node : BlockTreeNode) (offset : Int) (descriptor : BlockDescriptor) :
    Except Error BlockTreeNode :=
  match node with
  | .branch .. => .error .notLeafNode
  | .leaf startOffset size subNodeSize values => do
    let index ← indexAtOffset startOffset size subNodeSize offset
    pure (.leaf startOffset size subNodeSize (Function.update values index (some descriptor)))

/-! ### The sub node size -/

private theorem pow_step_le {size leafValueSize k : Nat}
    (h : size / (leafValueSize * 256 ^ k) > 256) : leafValueSize * 256 ^ (k + 1) < size := by
  have hmul := Nat.div_mul_le_self size (leafValueSize * 256 ^ k)
  have hpos : 0 < leafValueSize * 256 ^ k := by
    rcases Nat.eq_zero_or_pos (leafValueSize * 256 ^ k) with h0 | hpos
    · rw [h0] at h
      simp at h
    · exact hpos
  have hlt := Nat.mul_lt_mul_of_pos_right h hpos
  rw [pow_succ]
  calc
    leafValueSize * (256 ^ k * 256) = 256 * (leafValueSize * 256 ^ k) := by ring
    _ < size / (leafValueSize * 256 ^ k) * (leafValueSize * 256 ^ k) := hlt
    _ ≤ size := hmul

/-- What the loop over the sub node sizes keeps: the size is the leaf value
size times a power of 256, and no smaller power was enough. -/
def SubNodeSizeInvariant (size leafValueSize subNodeSize : Nat) : Prop :=
  ∃ k, subNodeSize = leafValueSize * 256 ^ k ∧
    ∀ j < k, 256 < size / (leafValueSize * 256 ^ j)

theorem subNodeSizeStep_preserved {size leafValueSize : Nat} (hsize : size ≤ int64Max)
    {s s' : Nat} (hinv : SubNodeSizeInvariant size leafValueSize s)
    (hstep : subNodeSizeStep size s = .next s') :
    SubNodeSizeInvariant size leafValueSize s' ∧ s < s' ∧ s' ≤ size := by
  obtain ⟨k, rfl, hk⟩ := hinv
  simp only [subNodeSizeStep, numberOfSubNodes] at hstep
  split at hstep
  · next hgt =>
    have hlt := pow_step_le hgt
    have hmax : int64Max = 9223372036854775807 := rfl
    have hpow : leafValueSize * 256 ^ (k + 1) = leafValueSize * 256 ^ k * 256 := by ring
    have hnext : s' = leafValueSize * 256 ^ (k + 1) := by
      injection hstep with hstep
      rw [← hstep, hpow, Nat.mod_eq_of_lt]
      omega
    refine ⟨⟨k + 1, hnext, ?_⟩, ?_, ?_⟩
    · intro j hj
      rcases Nat.lt_succ_iff_lt_or_eq.mp hj with hlt | rfl
      · exact hk j hlt
      · exact hgt
    · have hpos : 0 < leafValueSize * 256 ^ k := by
        rcases Nat.eq_zero_or_pos (leafValueSize * 256 ^ k) with h0 | hpos
        · rw [h0] at hgt
          simp at hgt
        · exact hpos
      omega
    · omega
  · cases hstep

theorem subNodeSizeInvariant_leafValueSize (size leafValueSize : Nat) :
    SubNodeSizeInvariant size leafValueSize leafValueSize :=
  ⟨0, (Nat.mul_one leafValueSize).symm, fun j hj => absurd hj (Nat.not_lt_zero j)⟩

/-- The loop ends. -/
theorem returns_chooseSubNodeSize {size : Nat} (leafValueSize : Nat) (hsize : size ≤ int64Max) :
    Loop.Returns (subNodeSizeStep size) leafValueSize (chooseSubNodeSize size leafValueSize) := by
  obtain ⟨b, hb⟩ : ∃ b, Loop.run (subNodeSizeStep size) (size + 1) leafValueSize = .done b :=
    Loop.run_of_measure (I := SubNodeSizeInvariant size leafValueSize) (fun s => size - s)
    (fun s s' hi hs => (subNodeSizeStep_preserved hsize hi hs).1)
    (fun s s' hi hs => by
      have h := subNodeSizeStep_preserved hsize hi hs
      omega)
    (subNodeSizeInvariant_leafValueSize size leafValueSize)
    (show size - leafValueSize < size + 1 by omega)
  refine ⟨size + 1, ?_⟩
  rw [chooseSubNodeSize, hb]

/-- The loop ends, without a wrap in 64 bits, at the least power of 256 times
the leaf value size that divides the node in at most 256 whole parts. -/
theorem chooseSubNodeSize_spec {size : Nat} (leafValueSize : Nat) (hsize : size ≤ int64Max) :
    ∃ k, chooseSubNodeSize size leafValueSize = leafValueSize * 256 ^ k ∧
      size / (leafValueSize * 256 ^ k) ≤ 256 ∧
      ∀ j < k, 256 < size / (leafValueSize * 256 ^ j) := by
  obtain ⟨⟨k, hk, hmin⟩, hle⟩ :=
    (returns_chooseSubNodeSize leafValueSize hsize).invariant
      (P := fun b => SubNodeSizeInvariant size leafValueSize b ∧ size / b ≤ 256)
      (subNodeSizeInvariant_leafValueSize size leafValueSize)
      (fun s s' hi hs => (subNodeSizeStep_preserved hsize hi hs).1)
      (fun s b hi hs => by
        simp only [subNodeSizeStep, numberOfSubNodes] at hs
        split at hs
        · cases hs
        · next hle =>
          injection hs with hs
          subst hs
          exact ⟨hi, by omega⟩)
  exact ⟨k, hk, hk ▸ hle, hmin⟩

theorem chooseSubNodeSize_pos {size leafValueSize : Nat} (hsize : size ≤ int64Max)
    (hleaf : 0 < leafValueSize) : 0 < chooseSubNodeSize size leafValueSize := by
  obtain ⟨k, hk, _, _⟩ := chooseSubNodeSize_spec leafValueSize hsize
  rw [hk]
  positivity

/-- A sub node, whose size is the sub node size of its parent, has parts that
are one power of 256 smaller, and exactly 256 of them. -/
theorem chooseSubNodeSize_of_pow {leafValueSize k : Nat} (hleaf : 0 < leafValueSize)
    (hsize : leafValueSize * 256 ^ (k + 1) ≤ int64Max) :
    chooseSubNodeSize (leafValueSize * 256 ^ (k + 1)) leafValueSize = leafValueSize * 256 ^ k := by
  obtain ⟨m, hm, hle, hmin⟩ := chooseSubNodeSize_spec leafValueSize hsize
  have hquot (j : Nat) (hj : j ≤ k + 1) :
      leafValueSize * 256 ^ (k + 1) / (leafValueSize * 256 ^ j) = 256 ^ (k + 1 - j) := by
    rw [Nat.mul_div_mul_left _ _ hleaf, Nat.pow_div hj (by norm_num)]
  have hmk : m ≤ k := by
    by_contra hgt
    have hk := hmin k (by omega)
    rw [hquot k (by omega), show k + 1 - k = 1 by omega] at hk
    simp at hk
  have hkm : k ≤ m := by
    by_contra hgt
    rw [hquot m (by omega)] at hle
    have hpow : 256 ^ 2 ≤ 256 ^ (k + 1 - m) := Nat.pow_le_pow_right (by norm_num) (by omega)
    omega
  rw [hm, Nat.le_antisymm hmk hkm]

/-! ### The index of an offset -/

/-- The index is the quotient, and there is one exactly for the offsets of the
node that fall in its first 256 parts. -/
theorem indexAtOffset_eq_ok_iff {startOffset size subNodeSize : Nat} {offset : Int}
    {index : Fin numberOfSubNodes} :
    indexAtOffset startOffset size subNodeSize offset = .ok index ↔
      (startOffset : Int) ≤ offset ∧ offset < (startOffset + size : Nat) ∧
        (offset.toNat - startOffset) / subNodeSize = index := by
  have hmax : int32Max = 2147483647 := rfl
  have hsub : numberOfSubNodes = 256 := rfl
  have hindex := index.isLt
  unfold indexAtOffset
  constructor
  · intro h
    split at h
    · cases h
    · next hrange =>
      dsimp only at h
      split at h
      · cases h
      · split at h
        · injection h with h
          subst h
          exact ⟨by omega, by omega, rfl⟩
        · cases h
  · rintro ⟨h0, h1, hq⟩
    rw [if_neg (by omega)]
    dsimp only
    rw [if_neg (by omega), dif_pos (by omega)]
    congr 1
    exact Fin.ext hq

theorem indexAtOffset_eq_error {startOffset size subNodeSize : Nat} {offset : Int}
    (h : ¬ ((startOffset : Int) ≤ offset ∧ offset < (startOffset + size : Nat) ∧
      (offset.toNat - startOffset) / subNodeSize < numberOfSubNodes)) :
    ∃ e, indexAtOffset startOffset size subNodeSize offset = .error e := by
  cases hi : indexAtOffset startOffset size subNodeSize offset with
  | error e => exact ⟨e, rfl⟩
  | ok index =>
    obtain ⟨h0, h1, hq⟩ := indexAtOffset_eq_ok_iff.mp hi
    exact absurd ⟨h0, h1, hq ▸ index.isLt⟩ h

end BlockTreeNode

end FsFat
