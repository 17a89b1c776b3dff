import FsFat.BlockTree

/-!
The block tree over a sequence of inserts: what each insert returns and what can
be looked up after them. The tree is the map that it is meant to be for the
sizes at which its 256 parts reach the end of the volume. A size that is more
than 256 parts and less than 257 has a last part that no node knows.
-/

namespace FsFat.BlockTree

/-- Inserts one after the other: what each of them found, and the tree after them. -/
def insertAll : BlockTree → List (Int × BlockDescriptor) →
    Except Error (List (Option BlockDescriptor) × BlockTree)
  | tree, [] => .ok ([], tree)
  | tree, (offset, descriptor) :: inserts => do
    let (existing, tree) ← tree.insertBlockDescriptorByOffset offset descriptor
    let (results, tree) ← insertAll tree inserts
    pure (existing :: results, tree)

/-- The descriptor that was first inserted at an offset in the block. -/
def firstInserted (leafValueSize : Nat) (inserts : List (Int × BlockDescriptor)) : BlockMap :=
  fun block => (inserts.find? fun insert => insert.1.toNat / leafValueSize = block).map Prod.snd

/-- A new tree of the size takes every sequence of inserts in the volume. Each
of them finds the descriptor that was first inserted in its block, if there is
one, and so does every look up after them. -/
def IsBlockMap (size leafValueSize : Nat) : Prop :=
  ∃ tree, create size leafValueSize = .ok tree ∧
    ∀ inserts : List (Int × BlockDescriptor), (∀ insert ∈ inserts, 0 ≤ insert.1 ∧ insert.1 < size) →
      ∃ results tree', insertAll tree inserts = .ok (results, tree') ∧
        results.length = inserts.length ∧
        (∀ n (h : n < inserts.length), results[n]? = some
          (firstInserted leafValueSize (inserts.take n) (inserts[n].1.toNat / leafValueSize))) ∧
        ∀ offset : Int, 0 ≤ offset → offset < size →
          tree'.getBlockDescriptorByOffset offset =
            .ok ((firstInserted leafValueSize inserts (offset.toNat / leafValueSize)).map
              (·, (offset.toNat % leafValueSize : Nat)))

/-! ### Inserts -/

theorem firstInserted_append (leafValueSize : Nat) (inserts : List (Int × BlockDescriptor))
    (offset : Int) (descriptor : BlockDescriptor) :
    firstInserted leafValueSize (inserts ++ [(offset, descriptor)]) =
      (firstInserted leafValueSize inserts).insert (offset.toNat / leafValueSize) descriptor := by
  funext block
  unfold BlockMap.insert
  by_cases hblock : offset.toNat / leafValueSize = block
  · subst hblock
    cases hfind : inserts.find? fun insert =>
        insert.1.toNat / leafValueSize = offset.toNat / leafValueSize <;>
      simp [firstInserted, List.find?_append, hfind]
  · cases hmap : firstInserted leafValueSize inserts (offset.toNat / leafValueSize) <;>
      simp [firstInserted, List.find?_append, hblock, Function.update_of_ne (Ne.symm hblock)]

/-- A tree that stands for earlier inserts stands for all of them after the others. -/
theorem insertAll_spec {tree : BlockTree} {size leafValueSize : Nat}
    {earlier inserts : List (Int × BlockDescriptor)}
    (htree : tree.StandsFor size leafValueSize (firstInserted leafValueSize earlier))
    (hcovers : ∀ insert ∈ inserts, Covers size leafValueSize insert.1) :
    ∃ results tree', insertAll tree inserts = .ok (results, tree') ∧
      results.length = inserts.length ∧
      (∀ n (h : n < inserts.length), results[n]? = some (firstInserted leafValueSize
        (earlier ++ inserts.take n) (inserts[n].1.toNat / leafValueSize))) ∧
      tree'.StandsFor size leafValueSize (firstInserted leafValueSize (earlier ++ inserts)) := by
  induction inserts generalizing tree earlier with
  | nil => exact ⟨[], tree, rfl, rfl, fun n h => absurd h (Nat.not_lt_zero n), by simpa using htree⟩
  | cons insert inserts ih =>
    obtain ⟨offset, descriptor⟩ := insert
    obtain ⟨tree₁, hinsert, htree₁⟩ :=
      insert_spec htree (hcovers _ List.mem_cons_self) descriptor
    rw [← firstInserted_append] at htree₁
    obtain ⟨results, tree', hall, hlength, hresults, htree'⟩ :=
      ih htree₁ fun insert hinsert => hcovers insert (List.mem_cons_of_mem _ hinsert)
    refine ⟨firstInserted leafValueSize earlier (offset.toNat / leafValueSize) :: results, tree', ?_,
      by simp [hlength], ?_, by simpa using htree'⟩
    · simp only [insertAll, hinsert, hall, bind, Except.bind, pure, Except.pure]
    · intro n h
      cases n with
      | zero => simp
      | succ n =>
        have hn := hresults n (by simpa using h)
        simpa using hn

/-! ### The sizes of which the parts reach the end -/

/-- The tree reaches the whole volume. -/
theorem covers_all_iff {size leafValueSize : Nat} (hleaf : 0 < leafValueSize) (hsize : 0 < size)
    (hmax : size ≤ 2 ^ 62) :
    (∀ offset : Int, 0 ≤ offset → offset < size → Covers size leafValueSize offset) ↔
      size ≤ 256 * BlockTreeNode.chooseSubNodeSize size leafValueSize := by
  have hsize' : size ≤ int64Max := le_trans hmax (by norm_num [int64Max])
  have hpos := BlockTreeNode.chooseSubNodeSize_pos hsize' hleaf
  obtain ⟨k, hk, _, hmin⟩ := BlockTreeNode.chooseSubNodeSize_spec leafValueSize hsize'
  set part := BlockTreeNode.chooseSubNodeSize size leafValueSize with hpart
  constructor
  · intro hall
    by_contra hlt
    obtain ⟨_, _, hindex, _⟩ := hall (256 * part : Nat) (by omega) (by omega)
    rw [← hpart, Int.toNat_natCast, Nat.mul_div_cancel _ hpos] at hindex
    exact absurd hindex (lt_irrefl 256)
  · intro hle offset h0 hlt
    have hmul := Nat.div_mul_le_self offset.toNat part
    refine ⟨h0, hlt, ?_, ?_⟩
    · rw [← hpart, Nat.div_lt_iff_lt_mul hpos]
      simp only [numberOfSubNodes]
      omega
    · rw [← hpart]
      -- a part that is not a single block is smaller than the volume
      cases k with
      | zero => exact .inl (by simpa using hk)
      | succ k =>
        right
        have hgt := hmin k (Nat.lt_succ_self k)
        have hbelow : part < size := by
          have hdiv := Nat.div_mul_le_self size (leafValueSize * 256 ^ k)
          have hpos : 0 < leafValueSize * 256 ^ k := by positivity
          have hmul := Nat.mul_lt_mul_of_pos_right hgt hpos
          calc
            part = 256 * (leafValueSize * 256 ^ k) := by rw [hk, pow_succ]; ring
            _ < size / (leafValueSize * 256 ^ k) * (leafValueSize * 256 ^ k) := hmul
            _ ≤ size := hdiv
        rw [Nat.add_mul, Nat.one_mul]
        simp only [int64Max]
        omega

/-- The parts are 256 at most, but for the sizes between 256 and 257 of them. -/
theorem le_parts_iff {size leafValueSize : Nat} (hleaf : 0 < leafValueSize)
    (hmax : size ≤ int64Max) :
    size ≤ 256 * BlockTreeNode.chooseSubNodeSize size leafValueSize ↔
      ∀ k, ¬ (256 * (leafValueSize * 256 ^ k) < size ∧ size < 257 * (leafValueSize * 256 ^ k)) := by
  obtain ⟨m, hm, hle, hmin⟩ := BlockTreeNode.chooseSubNodeSize_spec leafValueSize hmax
  rw [hm]
  constructor
  · rintro hsize k ⟨hlower, hupper⟩
    by_cases hk : k < m
    · have hgt := hmin k hk
      have hlt := (Nat.div_lt_iff_lt_mul (show 0 < leafValueSize * 256 ^ k by positivity)).mpr hupper
      omega
    · have hpow : 256 ^ m ≤ 256 ^ k := Nat.pow_le_pow_right (by norm_num) (not_lt.mp hk)
      have hmul : leafValueSize * 256 ^ m ≤ leafValueSize * 256 ^ k := Nat.mul_le_mul_left _ hpow
      omega
  · intro hnot
    by_contra hlt
    have hupper := (Nat.div_lt_iff_lt_mul (show 0 < leafValueSize * 256 ^ m by positivity)).mp
      (Nat.lt_succ_of_le hle)
    exact hnot m ⟨not_le.mp hlt, hupper⟩

/-! ### The tree as a map -/

/-- The tree is a map from blocks to descriptors for every sequence of inserts
exactly for the sizes that are not between 256 and 257 blocks, or parts of a
power of 256 blocks. -/
theorem isBlockMap_iff {size leafValueSize : Nat} (hsize : 1 ≤ size) (hmax : size ≤ 2 ^ 62)
    (hleaf : 1 ≤ leafValueSize) :
    IsBlockMap size leafValueSize ↔
      ∀ k, ¬ (256 * (leafValueSize * 256 ^ k) < size ∧ size < 257 * (leafValueSize * 256 ^ k)) := by
  have hsize' : size ≤ int64Max := le_trans hmax (by norm_num [int64Max])
  rw [← le_parts_iff hleaf hsize', ← covers_all_iff hleaf hsize hmax]
  obtain ⟨tree, hcreate, hempty⟩ := create_standsFor hleaf hsize hsize'
  constructor
  · rintro ⟨tree', hcreate', hinserts⟩ offset h0 hlt
    obtain rfl : tree = tree' := Except.ok.inj (hcreate.symm.trans hcreate')
    by_contra hcovers
    obtain ⟨e, he⟩ := insert_error hempty hcovers ⟨0⟩
    obtain ⟨results, tree', hall, _⟩ := hinserts [(offset, ⟨0⟩)] (by simp [h0, hlt])
    simp only [insertAll, he, bind, Except.bind] at hall
    cases hall
  · intro hcovers
    refine ⟨tree, hcreate, fun inserts hin => ?_⟩
    have hstart : tree.StandsFor size leafValueSize (firstInserted leafValueSize []) := hempty
    have hall : ∀ insert ∈ inserts, Covers size leafValueSize insert.1 := fun insert hinsert =>
      hcovers insert.1 (hin insert hinsert).1 (hin insert hinsert).2
    obtain ⟨results, tree', hall, hlength, hresults, htree'⟩ := insertAll_spec hstart hall
    exact ⟨results, tree', hall, hlength, hresults,
      fun offset h0 hlt => get_spec htree' (hcovers offset h0 hlt)⟩

/-- The volume is one byte more than 256 blocks. -/
theorem isBlockMap_iff_rest :
    IsBlockMap 131073 512 ↔
      ∀ k, ¬ (256 * (512 * 256 ^ k) < 131073 ∧ 131073 < 257 * (512 * 256 ^ k)) :=
  isBlockMap_iff (by norm_num) (by norm_num) (by norm_num)

/-- The block of the last byte cannot be inserted. -/
theorem not_isBlockMap_rest : ¬ IsBlockMap 131073 512 := by
  rintro ⟨tree, hcreate, hinserts⟩
  obtain ⟨results, tree', hall, _⟩ := hinserts [(131072, ⟨258⟩)] (by simp)
  have hnot : ¬ Covers 131073 512 131072 := by decide +kernel
  obtain ⟨tree₀, hcreate₀, hempty⟩ : ∃ tree, create 131073 512 = .ok tree ∧
      tree.StandsFor 131073 512 fun _ => none :=
    create_standsFor (by norm_num) (by norm_num) (by norm_num [int64Max])
  obtain rfl : tree = tree₀ := Except.ok.inj (hcreate.symm.trans hcreate₀)
  obtain ⟨e, he⟩ := insert_error hempty hnot ⟨258⟩
  simp only [insertAll, he, bind, Except.bind] at hall
  cases hall

end FsFat.BlockTree
