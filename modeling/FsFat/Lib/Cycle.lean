import FsFat.Lib.Loop
import Mathlib.Data.Fintype.Pigeonhole
import Mathlib.Data.Set.Finite.Basic

/-!
Infinite sequences of a relation that stay among finitely many states. Such a
sequence comes back to a state, so that there is one from a state exactly when
a cycle of the relation can be reached from it.

Nothing here depends on a particular program.
-/

namespace FsFat

variable {σ : Type*} {R : σ → σ → Prop}

/-- A cycle of the relation can be reached from the state. -/
def ReachesCycle (R : σ → σ → Prop) (s : σ) : Prop :=
  ∃ t, Relation.ReflTransGen R s t ∧ Relation.TransGen R t t

namespace ReachesCycle

/-- The relation leads to a state from which the cycle can be reached too. -/
theorem step {s : σ} (h : ReachesCycle R s) : ∃ s', R s s' ∧ ReachesCycle R s' := by
  obtain ⟨t, hreach, hcycle⟩ := h
  rcases Relation.ReflTransGen.cases_head hreach with rfl | ⟨s', hs', hreach'⟩
  · obtain ⟨s', hs', hback⟩ := Relation.TransGen.head'_iff.mp hcycle
    exact ⟨s', hs', s, hback, hcycle⟩
  · exact ⟨s', hs', t, hreach', hcycle⟩

private theorem reflTransGen_of_sequence {f : Nat → σ} (h : ∀ n, R (f n) (f (n + 1))) (m k : Nat) :
    Relation.ReflTransGen R (f m) (f (m + k)) := by
  induction k with
  | zero => exact .refl
  | succ k ih => exact ih.tail (h (m + k))

/-- A sequence that stays in a finite set comes back to a state. -/
theorem of_sequence {f : Nat → σ} (h : ∀ n, R (f n) (f (n + 1))) {states : Set σ}
    (hfinite : states.Finite) (hmem : ∀ n, f n ∈ states) : ReachesCycle R (f 0) := by
  have : Finite states := hfinite
  obtain ⟨m, n, hne, heq⟩ :=
    Finite.exists_ne_map_eq_of_infinite (fun n => (⟨f n, hmem n⟩ : states))
  have hstates : f m = f n := congrArg Subtype.val heq
  wlog hlt : m < n generalizing m n
  · exact this n m hne.symm heq.symm hstates.symm (by omega)
  refine ⟨f m, ?_, ?_⟩
  · have hreach := reflTransGen_of_sequence h 0 m
    rwa [Nat.zero_add] at hreach
  · have hback := reflTransGen_of_sequence h (m + 1) (n - (m + 1))
    rw [Nat.add_sub_cancel' hlt, ← hstates] at hback
    exact .head' (h m) hback

end ReachesCycle

end FsFat
