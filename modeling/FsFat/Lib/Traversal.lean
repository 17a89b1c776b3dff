import Mathlib.Data.List.Basic

/-!
Going through a tree whose nodes are got one after the other. Something is
written for a node, and then for the nodes below it in their order. Writing may
fail, and so may getting a node. What is written is what there is to write for
the first places of the tree, in preorder: a place is the list of the indices
that lead to it, and preorder is the order of these lists.

Nothing here depends on a particular program.
-/

namespace FsFat

/-- A node has a number of children, which are got by their index. -/
structure Tree (ε ν : Type) where
  arity : ν → Except ε Nat
  child : ν → Nat → Except ε ν

namespace Tree

variable {ε ν ω : Type}

section Places

variable (tree : Tree ε ν)

def IsChild (node child : ν) : Prop :=
  ∃ count index, tree.arity node = .ok count ∧ index < count ∧ tree.child node index = .ok child

/-- The indices lead from a node to another. -/
inductive Place : ν → List Nat → ν → Prop
  | here (node : ν) : Place node [] node
  | step {node child last : ν} {count index : Nat} {indices : List Nat} :
      tree.arity node = .ok count → index < count → tree.child node index = .ok child →
      Place child indices last → Place node (index :: indices) last

end Places

/-! ### The traversal -/

section Definitions

variable (tree : Tree ε ν) (write : ν → List ω × Except ε Unit)

/-- The loop over the children. There is no result where visiting one of them
has none. -/
def traverseChildren (visit : ν → Option (List ω × Except ε Unit)) (child : Nat → Except ε ν) :
    List Nat → Option (List ω × Except ε Unit)
  | [] => some ([], .ok ())
  | index :: indices =>
    match child index with
    | .error e => some ([], .error e)
    | .ok node =>
      match visit node with
      | none => none
      | some (written, .error e) => some (written, .error e)
      | some (written, .ok ()) =>
        (traverseChildren visit child indices).map fun rest => (written ++ rest.1, rest.2)

/-- Writing a node and then those below it, as deep as `depth`. -/
def traverse : Nat → ν → Option (List ω × Except ε Unit)
  | 0, _ => none
  | depth + 1, node =>
    match write node with
    | (written, .error e) => some (written, .error e)
    | (written, .ok ()) =>
      match tree.arity node with
      | .error e => some (written, .error e)
      | .ok count =>
        (traverseChildren (traverse depth) (tree.child node) (List.range count)).map fun rest =>
          (written ++ rest.1, rest.2)

/-- A node is written, and its children are got. -/
structure IsKnown (node : ν) : Prop where
  written : (write node).2 = .ok ()
  children : ∃ count, tree.arity node = .ok count ∧
    ∀ index < count, ∃ child, tree.child node index = .ok child

end Definitions

/-- The first places in order. Where the result is a success, they are all places. -/
structure Visits (place : List Nat → ν → Prop) (places : List (List Nat × ν))
    (result : Except ε Unit) : Prop where
  sorted : places.Pairwise fun p q => p.1 < q.1
  isPlace : ∀ p ∈ places, place p.1 p.2
  initial : ∀ p ∈ places, ∀ indices node, place indices node → indices < p.1 →
    (indices, node) ∈ places
  all : result = .ok () → ∀ indices node, place indices node → (indices, node) ∈ places

section Traversal

variable {tree : Tree ε ν} {write : ν → List ω × Except ε Unit}

/-- All the places of a tree have one order. -/
theorem Visits.unique {place : List Nat → ν → Prop} {places others : List (List Nat × ν)}
    (h : Visits place places (.ok () : Except ε Unit))
    (hothers : Visits place others (.ok () : Except ε Unit)) : places = others := by
  have hnodup {places : List (List Nat × ν)} (hsorted : places.Pairwise fun p q => p.1 < q.1) :
      places.Nodup := by
    apply hsorted.imp
    rintro p _ hlt rfl
    exact List.lt_irrefl p.1 hlt
  have hperm : places.Perm others := by
    apply (List.perm_ext_iff_of_nodup (hnodup h.sorted) (hnodup hothers.sorted)).mpr
    intro p
    exact ⟨fun hp => hothers.all rfl _ _ (h.isPlace p hp),
      fun hp => h.all rfl _ _ (hothers.isPlace p hp)⟩
  exact hperm.eq_of_pairwise (fun _ _ _ _ hlt hlt' => absurd hlt' (List.lt_asymm hlt)) h.sorted
    hothers.sorted

/-- The places below the children at some of the indices. -/
def IsBelow (tree : Tree ε ν) (child : Nat → Except ε ν) (among : List Nat) (indices : List Nat)
    (last : ν) : Prop :=
  ∃ index ∈ among, ∃ node rest, indices = index :: rest ∧ child index = .ok node ∧
    tree.Place node rest last

theorem Visits.isBelow_nil (child : Nat → Except ε ν) :
    Visits (tree.IsBelow child []) [] (.ok () : Except ε Unit) where
  sorted := .nil
  isPlace p hp := absurd hp List.not_mem_nil
  initial p hp := absurd hp List.not_mem_nil
  all := by
    rintro _ indices last ⟨index, hindex, _⟩
    exact absurd hindex List.not_mem_nil

/-- Where nothing more is written, the places there are the first ones. -/
theorem Visits.isBelow_error {child : Nat → Except ε ν} (among : List Nat) (e : ε) :
    Visits (tree.IsBelow child among) [] (.error e : Except ε Unit) where
  sorted := .nil
  isPlace p hp := absurd hp List.not_mem_nil
  initial p hp := absurd hp List.not_mem_nil
  all h := by cases h

section Children

variable {child : Nat → Except ε ν} {index : Nat} {among : List Nat} {node : ν}

/-- A place below the first child, as one below the children. -/
def below (index : Nat) (places : List (List Nat × ν)) : List (List Nat × ν) :=
  places.map fun p => (index :: p.1, p.2)

theorem mem_below {places : List (List Nat × ν)} {p : List Nat × ν} :
    p ∈ below index places ↔ ∃ rest, p.1 = index :: rest ∧ (rest, p.2) ∈ places := by
  rw [below, List.mem_map]
  constructor
  · rintro ⟨q, hq, rfl⟩
    exact ⟨q.1, rfl, hq⟩
  · rintro ⟨rest, hrest, hmem⟩
    exact ⟨(rest, p.2), hmem, by rw [← hrest]⟩

theorem pairwise_below {places : List (List Nat × ν)}
    (h : places.Pairwise fun p q => p.1 < q.1) :
    (below index places).Pairwise fun p q => p.1 < q.1 := by
  rw [below, List.pairwise_map]
  exact h.imp fun hlt => List.cons_lt_cons_iff.mpr (Or.inr ⟨rfl, hlt⟩)

/-- The places below the first child come before those below the others. -/
theorem Visits.isBelow_first {places : List (List Nat × ν)} {result : Except ε Unit}
    (hamong : ∀ other ∈ among, index < other) (hchild : child index = .ok node)
    (h : Visits (tree.Place node) places result) (hfailed : result ≠ .ok ()) :
    Visits (tree.IsBelow child (index :: among)) (below index places) result where
  sorted := pairwise_below h.sorted
  isPlace p hp := by
    obtain ⟨rest, hrest, hmem⟩ := mem_below.mp hp
    exact ⟨index, List.mem_cons_self, node, rest, hrest, hchild, h.isPlace _ hmem⟩
  initial p hp indices last := by
    rintro ⟨other, hother, found, rest, rfl, hfound, hplace⟩ hlt
    obtain ⟨rest', hrest', hmem⟩ := mem_below.mp hp
    rw [hrest', List.cons_lt_cons_iff] at hlt
    rcases List.mem_cons.mp hother with rfl | hother
    · rw [hchild] at hfound
      obtain rfl := Except.ok.inj hfound
      have hlt : rest < rest' := hlt.elim (fun h => absurd h (Nat.lt_irrefl _)) And.right
      exact mem_below.mpr ⟨rest, rfl, h.initial _ hmem rest last hplace hlt⟩
    · have hlater := hamong other hother
      omega
  all hok := absurd hok hfailed

theorem Visits.isBelow_cons {places rest : List (List Nat × ν)} {result : Except ε Unit}
    (hamong : ∀ other ∈ among, index < other) (hchild : child index = .ok node)
    (h : Visits (tree.Place node) places (.ok () : Except ε Unit))
    (hrest : Visits (tree.IsBelow child among) rest result) :
    Visits (tree.IsBelow child (index :: among)) (below index places ++ rest) result := by
  have hall (indices : List Nat) (last : ν) (hplace : tree.Place node indices last) :
      (index :: indices, last) ∈ below index places ++ rest :=
    List.mem_append_left _ (mem_below.mpr ⟨indices, rfl, h.all rfl indices last hplace⟩)
  refine ⟨?_, ?_, ?_, ?_⟩
  · rw [List.pairwise_append]
    refine ⟨pairwise_below h.sorted, hrest.sorted, ?_⟩
    intro p hp q hq
    obtain ⟨first, hfirst, _⟩ := mem_below.mp hp
    obtain ⟨other, hother, _, second, hsecond, _⟩ := hrest.isPlace q hq
    rw [hfirst, hsecond]
    exact List.cons_lt_cons_iff.mpr (Or.inl (hamong other hother))
  · intro p hp
    rcases List.mem_append.mp hp with hp | hp
    · obtain ⟨indices, hindices, hmem⟩ := mem_below.mp hp
      exact ⟨index, List.mem_cons_self, node, indices, hindices, hchild, h.isPlace _ hmem⟩
    · obtain ⟨other, hother, found⟩ := hrest.isPlace p hp
      exact ⟨other, List.mem_cons_of_mem _ hother, found⟩
  · rintro p hp _ last ⟨other, hother, found, indices, rfl, hfound, hplace⟩ hlt
    rcases List.mem_cons.mp hother with rfl | hother
    · rw [hchild] at hfound
      obtain rfl := Except.ok.inj hfound
      exact hall indices last hplace
    · rcases List.mem_append.mp hp with hp | hp
      · obtain ⟨first, hfirst, _⟩ := mem_below.mp hp
        have hlater := hamong other hother
        rw [hfirst, List.cons_lt_cons_iff] at hlt
        omega
      · exact List.mem_append_right _
          (hrest.initial p hp _ last ⟨other, hother, found, indices, rfl, hfound, hplace⟩ hlt)
  · rintro hok _ last ⟨other, hother, found, indices, rfl, hfound, hplace⟩
    rcases List.mem_cons.mp hother with rfl | hother
    · rw [hchild] at hfound
      obtain rfl := Except.ok.inj hfound
      exact hall indices last hplace
    · exact List.mem_append_right _
        (hrest.all hok _ last ⟨other, hother, found, indices, rfl, hfound, hplace⟩)

end Children

/-- A node comes before the places below its children. -/
theorem Visits.place_cons {node : ν} {count : Nat} {places : List (List Nat × ν)}
    {result : Except ε Unit} (harity : tree.arity node = .ok count)
    (h : Visits (tree.IsBelow (tree.child node) (List.range count)) places result) :
    Visits (tree.Place node) (([], node) :: places) result := by
  have hbelow {index : Nat} {indices : List Nat} {last : ν}
      (hplace : tree.Place node (index :: indices) last) :
      tree.IsBelow (tree.child node) (List.range count) (index :: indices) last := by
    cases hplace with
    | step harity' hlt hchild hplace =>
      obtain rfl := Except.ok.inj (harity.symm.trans harity')
      exact ⟨index, List.mem_range.mpr hlt, _, indices, rfl, hchild, hplace⟩
  have hmem {indices : List Nat} {last : ν} (hplace : tree.Place node indices last)
      (h : ∀ index rest, indices = index :: rest → (indices, last) ∈ places) :
      (indices, last) ∈ ([], node) :: places := by
    cases hplace with
    | here => exact List.mem_cons_self
    | step => exact List.mem_cons_of_mem _ (h _ _ rfl)
  refine ⟨?_, ?_, ?_, ?_⟩
  · refine List.pairwise_cons.mpr ⟨fun p hp => ?_, h.sorted⟩
    obtain ⟨index, _, _, rest, hrest, _⟩ := h.isPlace p hp
    rw [hrest]
    exact List.nil_lt_cons index rest
  · refine List.forall_mem_cons.mpr ⟨.here node, fun p hp => ?_⟩
    obtain ⟨index, hindex, child, rest, hrest, hchild, hplace⟩ := h.isPlace p hp
    rw [hrest]
    exact .step harity (List.mem_range.mp hindex) hchild hplace
  · intro p hp indices last hplace hlt
    apply hmem hplace
    rintro index rest rfl
    rcases List.mem_cons.mp hp with rfl | hp
    · exact absurd hlt (List.not_lt_nil _)
    · exact h.initial p hp _ last (hbelow hplace) hlt
  · intro hok indices last hplace
    apply hmem hplace
    rintro index rest rfl
    exact h.all hok _ last (hbelow hplace)

/-- A node below which nothing is written. -/
theorem Visits.place_error (node : ν) (e : ε) :
    Visits (tree.Place node) [([], node)] (.error e : Except ε Unit) where
  sorted := List.pairwise_singleton _ _
  isPlace := by
    intro p hp
    rw [List.mem_singleton.mp hp]
    exact .here node
  initial := by
    intro p hp indices last _ hlt
    rw [List.mem_singleton.mp hp] at hlt
    exact absurd hlt (List.not_lt_nil _)
  all h := by cases h

/-! ### What is written -/

/-- The text of the places, in order. -/
def text (write : ν → List ω × Except ε Unit) (places : List (List Nat × ν)) : List ω :=
  places.flatMap fun p => (write p.2).1

theorem text_below (index : Nat) (places : List (List Nat × ν)) :
    text write (below index places) = text write places := by
  simp [text, below, List.flatMap_map]

theorem text_cons (place : List Nat × ν) (places : List (List Nat × ν)) :
    text write (place :: places) = (write place.2).1 ++ text write places :=
  List.flatMap_cons

theorem text_append (places others : List (List Nat × ν)) :
    text write (places ++ others) = text write places ++ text write others :=
  List.flatMap_append

theorem traverseChildren_cons {visit : ν → Option (List ω × Except ε Unit)}
    {child : Nat → Except ε ν} {index : Nat} {among : List Nat} {written : List ω}
    {result : Except ε Unit}
    (h : traverseChildren visit child (index :: among) = some (written, result)) :
    (∃ e, child index = .error e ∧ written = [] ∧ result = .error e) ∨
    (∃ node e, child index = .ok node ∧ visit node = some (written, .error e) ∧
      result = .error e) ∨
    ∃ node first rest, child index = .ok node ∧ visit node = some (first, .ok ()) ∧
      traverseChildren visit child among = some (rest, result) ∧ written = first ++ rest := by
  rw [traverseChildren] at h
  cases hchild : child index with
  | error e =>
    simp only [hchild, Option.some.injEq, Prod.mk.injEq] at h
    exact Or.inl ⟨e, rfl, h.1.symm, h.2.symm⟩
  | ok node =>
    simp only [hchild] at h
    rcases hvisit : visit node with _ | ⟨first, e | _⟩
    · rw [hvisit] at h
      cases h
    · simp only [hvisit, Option.some.injEq, Prod.mk.injEq] at h
      exact Or.inr (Or.inl ⟨node, e, rfl, by rw [hvisit, h.1], h.2.symm⟩)
    · simp only [hvisit] at h
      obtain ⟨rest, hrest, heq⟩ := Option.map_eq_some_iff.mp h
      injection heq with hwritten hresult
      exact Or.inr (Or.inr ⟨node, first, rest.1, rfl, hvisit, by rw [hrest, ← hresult],
        hwritten.symm⟩)

theorem exists_succ_of_traverse {depth : Nat} {node : ν} {result : List ω × Except ε Unit}
    (h : tree.traverse write depth node = some result) : ∃ depth', depth = depth' + 1 := by
  cases depth with
  | zero => cases h
  | succ depth => exact ⟨depth, rfl⟩

theorem traverse_succ {depth : Nat} {node : ν} {written : List ω} {result : Except ε Unit}
    (h : tree.traverse write (depth + 1) node = some (written, result)) :
    (∃ e, result = .error e ∧ written = (write node).1) ∨
    ∃ count rest, (write node).2 = .ok () ∧ tree.arity node = .ok count ∧
      traverseChildren (tree.traverse write depth) (tree.child node) (List.range count) =
        some (rest, result) ∧ written = (write node).1 ++ rest := by
  rw [traverse] at h
  rcases hwrite : write node with ⟨first, e | _⟩
  · simp only [hwrite, Option.some.injEq, Prod.mk.injEq] at h
    exact Or.inl ⟨e, h.2.symm, h.1.symm⟩
  · simp only [hwrite] at h
    cases harity : tree.arity node with
    | error e =>
      simp only [harity, Option.some.injEq, Prod.mk.injEq] at h
      exact Or.inl ⟨e, h.2.symm, h.1.symm⟩
    | ok count =>
      simp only [harity] at h
      obtain ⟨rest, hrest, heq⟩ := Option.map_eq_some_iff.mp h
      injection heq with hwritten hresult
      exact Or.inr ⟨count, rest.1, rfl, rfl, by rw [hrest, ← hresult], hwritten.symm⟩

/-- If visiting a node goes through the places below it, so does the loop. -/
theorem traverseChildren_visits {visit : ν → Option (List ω × Except ε Unit)}
    (hvisit : ∀ node written result, visit node = some (written, result) →
      ∃ places, Visits (tree.Place node) places result ∧ written = text write places)
    {child : Nat → Except ε ν} {among : List Nat} (hsorted : among.Pairwise (· < ·))
    {written : List ω} {result : Except ε Unit}
    (h : traverseChildren visit child among = some (written, result)) :
    ∃ places, Visits (tree.IsBelow child among) places result ∧ written = text write places := by
  induction among generalizing written with
  | nil =>
    injection h with h
    injection h with hwritten hresult
    exact ⟨[], hresult ▸ Visits.isBelow_nil child, hwritten.symm⟩
  | cons index among ih =>
    obtain ⟨hfirst, hsorted⟩ := List.pairwise_cons.mp hsorted
    rcases traverseChildren_cons h with ⟨e, -, rfl, rfl⟩ | ⟨node, e, hchild, hnode, rfl⟩ |
      ⟨node, first, rest, hchild, hnode, hrest, rfl⟩
    · exact ⟨[], Visits.isBelow_error _ e, rfl⟩
    · obtain ⟨places, hplaces, rfl⟩ := hvisit node written _ hnode
      exact ⟨below index places, hplaces.isBelow_first hfirst hchild (by simp),
        (text_below index places).symm⟩
    · obtain ⟨places, hplaces, rfl⟩ := hvisit node first _ hnode
      obtain ⟨others, hothers, rfl⟩ := ih hsorted hrest
      refine ⟨below index places ++ others, hplaces.isBelow_cons hfirst hchild hothers, ?_⟩
      rw [text_append, text_below]

/-- What is written is the text of the first places, and of all of them where the
traversal succeeds. -/
theorem traverse_visits {depth : Nat} {node : ν} {written : List ω} {result : Except ε Unit}
    (h : tree.traverse write depth node = some (written, result)) :
    ∃ places, Visits (tree.Place node) places result ∧ written = text write places := by
  induction depth generalizing node written result with
  | zero => cases h
  | succ depth ih =>
    rcases traverse_succ h with ⟨e, rfl, rfl⟩ | ⟨count, rest, -, harity, hrest, rfl⟩
    · exact ⟨_, Visits.place_error node e, by simp [text]⟩
    · obtain ⟨places, hplaces, rfl⟩ :=
        traverseChildren_visits (fun _ _ _ => ih) List.pairwise_lt_range hrest
      exact ⟨_, hplaces.place_cons harity, rfl⟩

/-! ### Where it succeeds -/

theorem exists_child_of_traverseChildren {visit : ν → Option (List ω × Except ε Unit)}
    {child : Nat → Except ε ν} {among : List Nat} {written : List ω}
    (h : traverseChildren visit child among = some (written, .ok ())) {index : Nat}
    (hindex : index ∈ among) :
    ∃ node first, child index = .ok node ∧ visit node = some (first, .ok ()) := by
  induction among generalizing written with
  | nil => cases hindex
  | cons other among ih =>
    rcases traverseChildren_cons h with ⟨e, -, -, herror⟩ | ⟨node, e, -, -, herror⟩ |
      ⟨node, first, rest, hchild, hnode, hrest, -⟩
    · cases herror
    · cases herror
    · rcases List.mem_cons.mp hindex with rfl | hindex
      · exact ⟨node, first, hchild, hnode⟩
      · exact ih hrest hindex

/-- After a success the node is known, and so is every child of it. -/
theorem isKnown_of_traverse {depth : Nat} {node : ν} {written : List ω}
    (h : tree.traverse write (depth + 1) node = some (written, .ok ())) :
    tree.IsKnown write node ∧ ∀ child, tree.IsChild node child →
      ∃ first, tree.traverse write depth child = some (first, .ok ()) := by
  rcases traverse_succ h with ⟨e, herror, -⟩ | ⟨count, rest, hwrite, harity, hrest, -⟩
  · cases herror
  · have hchildren (index : Nat) (hlt : index < count) :=
      exists_child_of_traverseChildren hrest (List.mem_range.mpr hlt)
    refine ⟨⟨hwrite, count, harity, fun index hlt => ?_⟩, ?_⟩
    · obtain ⟨child, _, hchild, _⟩ := hchildren index hlt
      exact ⟨child, hchild⟩
    · rintro child ⟨count', index, harity', hlt, hchild⟩
      obtain rfl := Except.ok.inj (harity.symm.trans harity')
      obtain ⟨found, first, hfound, hvisit⟩ := hchildren index hlt
      obtain rfl := Except.ok.inj (hchild.symm.trans hfound)
      exact ⟨first, hvisit⟩

theorem traverseChildren_mono {visit visit' : ν → Option (List ω × Except ε Unit)}
    (hvisit : ∀ node result, visit node = some result → visit' node = some result)
    {child : Nat → Except ε ν} {among : List Nat} {result : List ω × Except ε Unit}
    (h : traverseChildren visit child among = some result) :
    traverseChildren visit' child among = some result := by
  induction among generalizing result with
  | nil => exact h
  | cons index among ih =>
    obtain ⟨written, result⟩ := result
    rcases traverseChildren_cons h with ⟨e, hchild, rfl, rfl⟩ | ⟨node, e, hchild, hnode, rfl⟩ |
      ⟨node, first, rest, hchild, hnode, hrest, rfl⟩
    · simp only [traverseChildren, hchild]
    · simp only [traverseChildren, hchild, hvisit _ _ hnode]
    · simp only [traverseChildren, hchild, hvisit _ _ hnode, ih hrest, Option.map_some]

/-- With more depth the result is the same. -/
theorem traverse_mono {depth depth' : Nat} (hle : depth ≤ depth') {node : ν}
    {result : List ω × Except ε Unit} (h : tree.traverse write depth node = some result) :
    tree.traverse write depth' node = some result := by
  induction depth generalizing depth' node result with
  | zero => cases h
  | succ depth ih =>
    obtain ⟨depth', rfl⟩ := Nat.exists_eq_add_of_le' (Nat.lt_of_lt_of_le (Nat.succ_pos depth) hle)
    rw [traverse] at h ⊢
    rcases hwrite : write node with ⟨first, e | _⟩
    · simpa only [hwrite] using h
    · simp only [hwrite] at h ⊢
      cases harity : tree.arity node with
      | error e => simpa only [harity] using h
      | ok count =>
        simp only [harity] at h ⊢
        obtain ⟨rest, hrest, heq⟩ := Option.map_eq_some_iff.mp h
        have hmono := traverseChildren_mono (fun _ _ => ih (Nat.le_of_succ_le_succ hle)) hrest
        rw [hmono, Option.map_some, heq]

theorem traverseChildren_of_children {child : Nat → Except ε ν} {among : List Nat}
    (h : ∀ index ∈ among, ∃ node depth first, child index = .ok node ∧
      tree.traverse write depth node = some (first, .ok ())) :
    ∃ depth rest, traverseChildren (tree.traverse write depth) child among =
      some (rest, .ok ()) := by
  induction among with
  | nil => exact ⟨0, [], rfl⟩
  | cons index among ih =>
    obtain ⟨⟨node, depth, first, hchild, hnode⟩, hamong⟩ := List.forall_mem_cons.mp h
    obtain ⟨depth', rest, hrest⟩ := ih hamong
    refine ⟨max depth depth', first ++ rest, ?_⟩
    have hfirst := traverse_mono (Nat.le_max_left depth depth') hnode
    have hothers := traverseChildren_mono
      (fun _ _ => traverse_mono (Nat.le_max_right depth depth')) hrest
    simp only [traverseChildren, hchild, hfirst, hothers, Option.map_some]

/-- The traversal succeeds on a finite tree whose nodes are all known, and only
on such a tree. -/
theorem traverse_ok_iff {node : ν} :
    (∃ depth written, tree.traverse write depth node = some (written, .ok ())) ↔
      Acc (fun child node => tree.IsChild node child) node ∧
        ∀ indices last, tree.Place node indices last → tree.IsKnown write last := by
  constructor
  · rintro ⟨depth, written, h⟩
    constructor
    · induction depth generalizing node written with
      | zero => cases h
      | succ depth ih =>
        refine ⟨_, fun child hchild => ?_⟩
        obtain ⟨first, hvisit⟩ := (isKnown_of_traverse h).2 child hchild
        exact ih first hvisit
    · intro indices last hplace
      induction hplace generalizing depth written with
      | here node =>
        obtain ⟨depth, rfl⟩ := exists_succ_of_traverse h
        exact (isKnown_of_traverse h).1
      | step harity hlt hchild _ ih =>
        obtain ⟨depth, rfl⟩ := exists_succ_of_traverse h
        obtain ⟨first, hvisit⟩ := (isKnown_of_traverse h).2 _ ⟨_, _, harity, hlt, hchild⟩
        exact ih depth first hvisit
  · rintro ⟨hacc, hknown⟩
    induction hacc with
    | intro node _ ih =>
      obtain ⟨hwrite, count, harity, hchildren⟩ := hknown [] node (.here node)
      obtain ⟨depth, rest, hrest⟩ : ∃ depth rest,
          traverseChildren (tree.traverse write depth) (tree.child node) (List.range count) =
            some (rest, .ok ()) := by
        apply traverseChildren_of_children
        intro index hindex
        have hlt := List.mem_range.mp hindex
        obtain ⟨child, hchild⟩ := hchildren index hlt
        obtain ⟨depth, first, hfirst⟩ := ih child ⟨count, index, harity, hlt, hchild⟩
          fun indices last hplace => hknown _ last (.step harity hlt hchild hplace)
        exact ⟨child, depth, first, hchild, hfirst⟩
      refine ⟨depth + 1, (write node).1 ++ rest, ?_⟩
      have hnode : write node = ((write node).1, .ok ()) := by rw [← hwrite]
      rw [traverse, hnode]
      simp only [harity, hrest, Option.map_some]

end Traversal

end Tree

end FsFat
