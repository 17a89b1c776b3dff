import Mathlib.Tactic.Common

/-!
Outcomes of two calls that may fail, compared. Which error a failing call gives
does not matter: two calls agree when both fail, or when both succeed with
values that are related.
-/

namespace FsFat.Outcome

variable {ε ε' α β γ δ : Type*} {R : α → β → Prop}

/-- Both calls fail, or both succeed with related values. -/
def Agree (R : α → β → Prop) : Except ε α → Except ε' β → Prop
  | .ok a, .ok b => R a b
  | .error _, .error _ => True
  | _, _ => False

theorem agree_iff {x : Except ε α} {y : Except ε' β} :
    Agree R x y ↔ (∀ a, x = .ok a → ∃ b, y = .ok b ∧ R a b) ∧
      ∀ b, y = .ok b → ∃ a, x = .ok a ∧ R a b := by
  cases x with
  | error e =>
    cases y with
    | error e' => simp [Agree]
    | ok b => simp [Agree]
  | ok a =>
    cases y with
    | error e' => simp [Agree]
    | ok b => simp [Agree]

theorem Agree.of_ok {x : Except ε α} {y : Except ε' β} {a : α} (h : Agree R x y) (hx : x = .ok a) :
    ∃ b, y = .ok b ∧ R a b :=
  (agree_iff.mp h).1 a hx

theorem Agree.map {S : γ → δ → Prop} {x : Except ε α} {y : Except ε' β} (h : Agree R x y)
    {f : α → γ} {g : β → δ} (hmap : ∀ a b, R a b → S (f a) (g b)) : Agree S (x.map f) (y.map g) := by
  cases x with
  | error e =>
    cases y with
    | error e' => trivial
    | ok b => exact h
  | ok a =>
    cases y with
    | error e' => exact h
    | ok b => exact hmap a b h

/-- Calls that succeed with the same values agree. -/
theorem agree_eq_of_forall {x y : Except ε α} (h : ∀ a, x = .ok a ↔ y = .ok a) : Agree Eq x y := by
  rw [agree_iff]
  exact ⟨fun a hx => ⟨a, (h a).mp hx, rfl⟩, fun a hy => ⟨a, (h a).mpr hy, rfl⟩⟩

/-- Both calls fail with the same error, or both succeed with related values. -/
inductive Same (R : α → β → Prop) : Except ε α → Except ε β → Prop where
  | error (e : ε) : Same R (.error e) (.error e)
  | ok {a : α} {b : β} (h : R a b) : Same R (.ok a) (.ok b)

theorem Same.refl {R : α → α → Prop} (h : ∀ a, R a a) (x : Except ε α) : Same R x x := by
  cases x with
  | error e => exact .error e
  | ok a => exact .ok (h a)

end FsFat.Outcome
