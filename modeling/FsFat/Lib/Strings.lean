import Mathlib.Data.List.Basic
import Mathlib.Tactic

/-!
Strings of symbols: cutting them at separators, and writing them in code units.

An encoding gives each symbol one or more code units, and a string the code
units of its symbols. A function that reads one symbol at a time finds, in an
encoded string, the symbols in their order; so a loop over the code units is a
recursion over the symbols, whatever the encoding is.
-/

namespace FsFat

/-! ### Components -/

section Components

variable {α : Type*} (isSeparator : α → Bool)

/-- The components of a string, each ended by a separator or by the end of the
string. There is none behind the last separator. -/
def components : List α → List (List α)
  | [] => []
  | a :: s =>
    if isSeparator a then [] :: components s
    else
      match components s with
      | [] => [[a]]
      | component :: rest => (a :: component) :: rest

variable {isSeparator}

/-- A string that has no separator is one component. -/
theorem components_of_forall {s : List α} (h : ∀ a ∈ s, isSeparator a = false) (hs : s ≠ []) :
    components isSeparator s = [s] := by
  induction s with
  | nil => exact absurd rfl hs
  | cons a s ih =>
    obtain ⟨ha, hrest⟩ := List.forall_mem_cons.mp h
    cases s with
    | nil => simp [components, ha]
    | cons b s => rw [components, ha, ih hrest (List.cons_ne_nil b s)]; rfl

/-- A separator ends the first component. -/
theorem components_append_cons {s rest : List α} {a : α} (h : ∀ b ∈ s, isSeparator b = false)
    (ha : isSeparator a = true) :
    components isSeparator (s ++ a :: rest) = s :: components isSeparator rest := by
  induction s with
  | nil => simp [components, ha]
  | cons b s ih =>
    obtain ⟨hb, hrest⟩ := List.forall_mem_cons.mp h
    simp [components, hb, ih hrest]

theorem components_ne_nil {s : List α} (h : s ≠ []) : components isSeparator s ≠ [] := by
  cases s with
  | nil => exact absurd rfl h
  | cons a s =>
    rw [components]
    split
    · exact List.cons_ne_nil _ _
    · split <;> exact List.cons_ne_nil _ _

/-- The components behind a separator are those of the rest. -/
theorem components_append_separator (s : List α) {a : α} (ha : isSeparator a = true)
    (t : List α) :
    components isSeparator (s ++ a :: t) =
      components isSeparator (s ++ [a]) ++ components isSeparator t := by
  induction s with
  | nil => simp [components, ha]
  | cons b s ih =>
    rw [List.cons_append, List.cons_append, components, components, ih]
    split
    · rfl
    · cases hfirst : components isSeparator (s ++ [a]) with
      | nil => exact absurd hfirst (components_ne_nil (by simp))
      | cons component rest => rfl

/-- A separator at the end of a component makes no other one. -/
theorem components_concat_separator (s : List α) {a b : α} (ha : isSeparator a = true)
    (hb : isSeparator b = false) :
    components isSeparator (s ++ [b] ++ [a]) = components isSeparator (s ++ [b]) := by
  induction s with
  | nil => simp [components, ha, hb]
  | cons c s ih =>
    rw [List.cons_append, List.cons_append, components, ih]
    rfl

/-- A string has no separator, or a first one. -/
theorem forall_or_exists_separator (isSeparator : α → Bool) (s : List α) :
    (∀ a ∈ s, isSeparator a = false) ∨
      ∃ first a rest, s = first ++ a :: rest ∧ (∀ b ∈ first, isSeparator b = false) ∧
        isSeparator a = true := by
  induction s with
  | nil => exact Or.inl fun a ha => absurd ha List.not_mem_nil
  | cons b s ih =>
    cases hb : isSeparator b with
    | true => exact Or.inr ⟨[], b, s, rfl, fun a ha => absurd ha List.not_mem_nil, hb⟩
    | false =>
      rcases ih with hall | ⟨first, a, rest, rfl, hfirst, ha⟩
      · exact Or.inl (List.forall_mem_cons.mpr ⟨hb, hall⟩)
      · exact Or.inr ⟨b :: first, a, rest, rfl, List.forall_mem_cons.mpr ⟨hb, hfirst⟩, ha⟩

/-- The only component of a string is shorter if the string has a separator. -/
theorem length_of_components_eq_singleton {s component : List α}
    (h : components isSeparator s = [component]) :
    component.length ≤ s.length ∧
      ((∃ a ∈ s, isSeparator a = true) → component.length < s.length) := by
  rcases forall_or_exists_separator isSeparator s with hall | ⟨first, a, rest, rfl, hfirst, ha⟩
  · rcases eq_or_ne s [] with rfl | hs
    · cases h
    · rw [components_of_forall hall hs] at h
      obtain rfl := List.singleton_inj.mp h
      refine ⟨Nat.le_refl _, ?_⟩
      rintro ⟨a, ha, hseparator⟩
      rw [hall a ha] at hseparator
      cases hseparator
  · rw [components_append_cons hfirst ha] at h
    injection h with h
    subst h
    simp

end Components

/-! ### Encodings -/

/-- A way to write symbols in code units, at least one for each symbol. -/
structure Encoding (α υ : Type*) where
  encodeSymbol : α → List υ
  ne_nil : ∀ a, encodeSymbol a ≠ []

namespace Encoding

variable {α υ : Type*} (e : Encoding α υ)

/-- The code units of a string. -/
def encode (s : List α) : List υ := s.flatMap e.encodeSymbol

@[simp] theorem encode_nil : e.encode [] = [] := rfl

@[simp] theorem encode_cons (a : α) (s : List α) :
    e.encode (a :: s) = e.encodeSymbol a ++ e.encode s := List.flatMap_cons

@[simp] theorem encode_append (s t : List α) : e.encode (s ++ t) = e.encode s ++ e.encode t :=
  List.flatMap_append

theorem length_encodeSymbol_pos (a : α) : 0 < (e.encodeSymbol a).length :=
  List.length_pos_of_ne_nil (e.ne_nil a)

/-- A string has no more symbols than code units. -/
theorem length_le_length_encode (s : List α) : s.length ≤ (e.encode s).length := by
  induction s with
  | nil => exact Nat.le_refl 0
  | cons a s ih =>
    have hpos := e.length_encodeSymbol_pos a
    rw [encode_cons, List.length_append, List.length_cons]
    omega

theorem encode_eq_nil_iff {s : List α} : e.encode s = [] ↔ s = [] := by
  cases s with
  | nil => simp
  | cons a s => simp [e.ne_nil a]

theorem isEmpty_encode_of_ne_nil {s : List α} (h : s ≠ []) : (e.encode s).isEmpty = false := by
  rw [List.isEmpty_eq_false_iff, ne_eq, e.encode_eq_nil_iff]
  exact h

/-- A string of at most one code unit has at most one symbol. -/
theorem length_encode_le_one_iff {s : List α} :
    (e.encode s).length ≤ 1 ↔ s = [] ∨ ∃ a, s = [a] ∧ (e.encodeSymbol a).length = 1 := by
  match s with
  | [] => simp
  | [a] =>
    have hpos := e.length_encodeSymbol_pos a
    rw [encode_cons, encode_nil, List.append_nil]
    simp
    omega
  | a :: b :: s =>
    have hle := e.length_le_length_encode (a :: b :: s)
    simp only [List.length_cons] at hle
    simp only [reduceCtorEq, List.cons.injEq, and_false, false_and, exists_false, or_self,
      iff_false]
    omega

/-- The place behind a part of a string is inside the string if more follows. -/
theorem length_encode_lt_iff (s t : List α) :
    (e.encode s).length < (e.encode (s ++ t)).length ↔ t ≠ [] := by
  rw [encode_append, List.length_append, Nat.lt_add_right_iff_pos, List.length_pos_iff, ne_eq,
    encode_eq_nil_iff]

/-- A component has no more code units than the string. -/
theorem length_encode_le_of_mem_components {isSeparator : α → Bool} {s component : List α}
    (h : component ∈ components isSeparator s) :
    (e.encode component).length ≤ (e.encode s).length := by
  induction s generalizing component with
  | nil => exact absurd h List.not_mem_nil
  | cons a s ih =>
    have hrest {part : List α} (hpart : part ∈ components isSeparator s) :
        (e.encode part).length ≤ (e.encode (a :: s)).length := by
      rw [encode_cons, List.length_append]
      exact le_trans (ih hpart) (Nat.le_add_left _ _)
    rw [components] at h
    split at h
    · rcases List.mem_cons.mp h with rfl | h
      · exact Nat.zero_le _
      · exact hrest h
    · split at h
      · rw [List.mem_singleton] at h
        subst h
        rw [encode_cons, encode_nil, encode_cons, List.append_nil, List.length_append]
        exact Nat.le_add_right _ _
      · next first rest hfirst =>
        rcases List.mem_cons.mp h with rfl | h
        · have hle := ih (hfirst ▸ List.mem_cons_self)
          simp only [encode_cons, List.length_append]
          exact Nat.add_le_add_left hle _
        · exact hrest (hfirst ▸ List.mem_cons_of_mem first h)

/-- The code units of a part of a string, at its place. -/
theorem take_drop_encode (s t u : List α) :
    ((e.encode (s ++ t ++ u)).drop (e.encode s).length).take (e.encode t).length = e.encode t := by
  rw [encode_append, encode_append, List.append_assoc, List.drop_left, List.take_left]

/-- What is left of an encoded string at the place of a symbol. -/
theorem drop_encode (s : List α) (a : α) (t : List α) :
    (e.encode (s ++ a :: t)).drop (e.encode s).length = e.encodeSymbol a ++ e.encode t := by
  rw [encode_append, List.drop_left, encode_cons]

theorem length_encode_concat (s : List α) (a : α) :
    (e.encode (s ++ [a])).length = (e.encode s).length + (e.encodeSymbol a).length := by
  rw [encode_append, encode_cons, encode_nil, List.append_nil, List.length_append]

/-- A function reads the symbols of encoded strings: at the place of a symbol it
finds the value of the symbol and the place behind it. -/
def IsReadBy {ε β : Type*} (value : α → β) (read : List υ → Nat → Except ε (β × Nat)) : Prop :=
  ∀ s a t, read (e.encode (s ++ a :: t)) (e.encode s).length =
    .ok (value a, (e.encode (s ++ [a])).length)

/-- Strings that can be read have the same code units only if they are the same. -/
theorem IsReadBy.encode_injective {e : Encoding α υ} {ε β : Type*} {value : α → β}
    {read : List υ → Nat → Except ε (β × Nat)} (h : e.IsReadBy value read)
    (hvalue : Function.Injective value) : Function.Injective e.encode := by
  have hrest (first s t : List α) (heq : e.encode (first ++ s) = e.encode (first ++ t)) :
      s = t := by
    induction s generalizing first t with
    | nil =>
      by_contra hne
      have hlt := (e.length_encode_lt_iff first t).mpr (Ne.symm hne)
      rw [← heq, List.append_nil] at hlt
      exact Nat.lt_irrefl _ hlt
    | cons a s ih =>
      cases t with
      | nil =>
        have hlt := (e.length_encode_lt_iff first (a :: s)).mpr (List.cons_ne_nil a s)
        rw [heq, List.append_nil] at hlt
        exact absurd hlt (Nat.lt_irrefl _)
      | cons b t =>
        -- both symbols are what is read at the place behind the first part
        have hread := (h first a s).symm.trans (heq ▸ h first b t)
        injection hread with hpair
        obtain rfl := hvalue (Prod.mk.inj hpair).1
        rw [ih (first ++ [a]) t (by simpa only [List.append_assoc, List.singleton_append] using heq)]
  intro s t heq
  exact hrest [] s t heq

end Encoding

end FsFat
