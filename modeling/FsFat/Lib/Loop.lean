import Mathlib.Logic.Function.Iterate
import Mathlib.Logic.Relation

/-!
Loops over an explicit state. A loop body either continues with a new state or
leaves the loop with a result. `run` executes at most a given number of
iterations and keeps the state it has reached when they are used up, so a loop
that does not end is a loop for which every number of iterations is too small.

Nothing here depends on a particular program. The rules are the usual ones:
more iterations do not change a result, an invariant of the body holds of
every reachable state, a decreasing measure ends the loop, and a loop that can
always come to a state with a property again does not end.
-/

namespace FsFat.Loop

variable {σ β : Type*}

/-- What one execution of a loop body does. -/
inductive Step (σ β : Type*) where
  | next : σ → Step σ β
  | done : β → Step σ β

/-- At most `n` iterations of the loop body. -/
def run (step : σ → Step σ β) : Nat → σ → Step σ β
  | 0, s => .next s
  | n + 1, s =>
    match step s with
    | .next s' => run step n s'
    | .done b => .done b

/-- The loop leaves with `b` after finitely many iterations. -/
def Returns (step : σ → Step σ β) (s : σ) (b : β) : Prop :=
  ∃ n, run step n s = .done b

/-- The loop leaves with some result after finitely many iterations. -/
def Terminates (step : σ → Step σ β) (s : σ) : Prop :=
  ∃ b, Returns step s b

/-- One iteration of the loop body that stays in the loop. -/
def Continues (step : σ → Step σ β) (s s' : σ) : Prop :=
  step s = .next s'

/-- The states in which the loop body can be entered. -/
def Reachable (step : σ → Step σ β) : σ → σ → Prop :=
  Relation.ReflTransGen (Continues step)

@[simp] theorem run_zero (step : σ → Step σ β) (s : σ) :
    run step 0 s = .next s := rfl

theorem run_succ_next {step : σ → Step σ β} {s s' : σ} (h : step s = .next s') (n : Nat) :
    run step (n + 1) s = run step n s' := by
  simp [run, h]

theorem run_succ_done {step : σ → Step σ β} {s : σ} {b : β} (h : step s = .done b) (n : Nat) :
    run step (n + 1) s = .done b := by
  simp [run, h]

/-- Further iterations do not change a result. -/
theorem run_mono {step : σ → Step σ β} {n : Nat} {s : σ} {b : β}
    (h : run step n s = .done b) {m : Nat} (hm : n ≤ m) : run step m s = .done b := by
  induction n generalizing s m with
  | zero => cases h
  | succ n ih =>
    obtain ⟨m, rfl⟩ : ∃ k, m = k + 1 := ⟨m - 1, by omega⟩
    cases hs : step s with
    | next s' =>
      rw [run_succ_next hs] at h ⊢
      exact ih h (by omega)
    | done b' =>
      rw [run_succ_done hs] at h ⊢
      exact h

/-- A loop has at most one result. -/
theorem Returns.unique {step : σ → Step σ β} {s : σ} {a b : β}
    (ha : Returns step s a) (hb : Returns step s b) : a = b := by
  obtain ⟨n, hn⟩ := ha
  obtain ⟨m, hm⟩ := hb
  have h1 := run_mono hn (Nat.le_max_left n m)
  have h2 := run_mono hm (Nat.le_max_right n m)
  rw [h1] at h2
  injection h2

theorem Returns.of_done {step : σ → Step σ β} {s : σ} {b : β} (h : step s = .done b) :
    Returns step s b :=
  ⟨1, run_succ_done h 0⟩

theorem Returns.of_next {step : σ → Step σ β} {s s' : σ} {b : β} (h : step s = .next s')
    (hr : Returns step s' b) : Returns step s b := by
  obtain ⟨n, hn⟩ := hr
  exact ⟨n + 1, by rw [run_succ_next h, hn]⟩

theorem returns_next_iff {step : σ → Step σ β} {s s' : σ} {b : β} (h : step s = .next s') :
    Returns step s b ↔ Returns step s' b := by
  constructor
  · rintro ⟨n, hn⟩
    cases n with
    | zero => cases hn
    | succ n => exact ⟨n, by rwa [run_succ_next h] at hn⟩
  · exact Returns.of_next h

theorem terminates_next_iff {step : σ → Step σ β} {s s' : σ} (h : step s = .next s') :
    Terminates step s ↔ Terminates step s' := by
  simp only [Terminates, returns_next_iff h]

theorem terminates_of_done {step : σ → Step σ β} {s : σ} {b : β} (h : step s = .done b) :
    Terminates step s :=
  ⟨b, .of_done h⟩

/-- Induction over the iterations of a loop that returns: `P` holds at every
exit, and passes from the state after an iteration to the state before it. -/
theorem Returns.induction {step : σ → Step σ β} {b : β} {P : σ → Prop} {s : σ}
    (h : Returns step s b) (exit : ∀ s, step s = .done b → P s)
    (iterate : ∀ s s', step s = .next s' → P s' → P s) : P s := by
  obtain ⟨n, hn⟩ := h
  induction n generalizing s with
  | zero => cases hn
  | succ n ih =>
    cases hs : step s with
    | next s' =>
      rw [run_succ_next hs] at hn
      exact iterate s s' hs (ih hn)
    | done b' =>
      rw [run_succ_done hs] at hn
      injection hn with hb
      exact exit s (hb ▸ hs)

/-- An invariant of the body holds in every reachable state. -/
theorem Reachable.invariant {step : σ → Step σ β} {I : σ → Prop} {s t : σ}
    (h : Reachable step s t) (init : I s)
    (preserved : ∀ s s', I s → step s = .next s' → I s') : I t := by
  induction h with
  | refl => exact init
  | tail _ hstep ih => exact preserved _ _ ih hstep

/-- The invariant rule: an invariant of the body, and what it gives at each
exit, hold of the result of the loop. -/
theorem Returns.invariant {step : σ → Step σ β} {I : σ → Prop} {P : β → Prop} {s : σ} {b : β}
    (h : Returns step s b) (init : I s)
    (preserved : ∀ s s', I s → step s = .next s' → I s')
    (exit : ∀ s b, I s → step s = .done b → P b) : P b := by
  apply h.induction (P := fun s => I s → P b) _ _ init
  · intro s hdone hI
    exact exit s b hI hdone
  · intro s s' hnext ih hI
    exact ih (preserved s s' hI hnext)

/-- Two loops whose bodies keep a relation between their states, and that leave
together with the same result, have the same results. -/
theorem Returns.of_related {τ : Type*} {step : σ → Step σ β} {step' : τ → Step τ β}
    {R : σ → τ → Prop}
    (related : ∀ s t, R s t → (∃ s' t', step s = .next s' ∧ step' t = .next t' ∧ R s' t') ∨
      ∃ b, step s = .done b ∧ step' t = .done b)
    {s : σ} {t : τ} {b : β} (h : Returns step s b) (init : R s t) : Returns step' t b := by
  obtain ⟨n, hn⟩ := h
  induction n generalizing s t with
  | zero => cases hn
  | succ n ih =>
    rcases related s t init with ⟨s', t', hs, ht, hrelated⟩ | ⟨b', hs, ht⟩
    · rw [run_succ_next hs] at hn
      exact .of_next ht (ih hrelated hn)
    · rw [run_succ_done hs] at hn
      injection hn with hb
      exact .of_done (hb ▸ ht)

/-- A measure that every iteration decreases, as long as the invariant holds,
bounds the number of iterations. -/
theorem run_of_measure {step : σ → Step σ β} {I : σ → Prop} (μ : σ → Nat)
    (preserved : ∀ s s', I s → step s = .next s' → I s')
    (decreases : ∀ s s', I s → step s = .next s' → μ s' < μ s) {s : σ} (init : I s)
    {n : Nat} (hn : μ s < n) : ∃ b, run step n s = .done b := by
  induction n generalizing s with
  | zero => omega
  | succ n ih =>
    cases hs : step s with
    | next s' =>
      have hlt := decreases s s' init hs
      rw [run_succ_next hs]
      exact ih (preserved s s' init hs) (by omega)
    | done b => exact ⟨b, run_succ_done hs n⟩

/-- The rule of total correctness: where each iteration keeps the invariant and decreases the
measure, or leaves the loop with a result that has a property, the loop returns such a result. -/
theorem exists_returns_of_measure {step : σ → Step σ β} {I : σ → Prop} {P : β → Prop} (μ : σ → Nat)
    (iterate : ∀ s, I s → (∃ s', step s = .next s' ∧ I s' ∧ μ s' < μ s) ∨
      ∃ b, step s = .done b ∧ P b) {s : σ} (init : I s) : ∃ b, Returns step s b ∧ P b := by
  induction hμ : μ s using Nat.strongRecOn generalizing s with
  | ind m ih =>
    rcases iterate s init with ⟨s', hs, hI, hlt⟩ | ⟨b, hs, hP⟩
    · obtain ⟨b, hreturns, hP⟩ := ih (μ s') (hμ ▸ hlt) hI rfl
      exact ⟨b, hreturns.of_next hs, hP⟩
    · exact ⟨b, .of_done hs, hP⟩

/-- The result from a reachable state is the result of the loop. -/
theorem Reachable.returns {step : σ → Step σ β} {s t : σ} {b : β} (h : Reachable step s t)
    (hr : Returns step t b) : Returns step s b := by
  induction h with
  | refl => exact hr
  | tail _ hstep ih => exact ih (hr.of_next hstep)

/-- From a property that every step of a relation can keep, an infinite sequence. -/
theorem exists_sequence {P : σ → Prop} {R : σ → σ → Prop}
    (progress : ∀ s, P s → ∃ s', R s s' ∧ P s') {s : σ} (init : P s) :
    ∃ f : Nat → σ, f 0 = s ∧ ∀ n, P (f n) ∧ R (f n) (f (n + 1)) := by
  classical
  let next : {t : σ // P t} → {t : σ // P t} := fun t =>
    ⟨Classical.choose (progress t.1 t.2), (Classical.choose_spec (progress t.1 t.2)).2⟩
  refine ⟨fun n => (next^[n] ⟨s, init⟩).1, rfl, fun n => ⟨(next^[n] ⟨s, init⟩).2, ?_⟩⟩
  simp only [Function.iterate_succ_apply']
  exact (Classical.choose_spec (progress _ (next^[n] ⟨s, init⟩).2)).1

/-- The result from a state that comes later is reached in fewer iterations. -/
private theorem run_of_transGen {step : σ → Step σ β} {s s' : σ}
    (h : Relation.TransGen (Continues step) s s') {n : Nat} {b : β}
    (hn : run step n s = .done b) : ∃ m < n, run step m s' = .done b := by
  induction h generalizing b with
  | single hstep =>
    cases n with
    | zero => cases hn
    | succ n =>
      rw [run_succ_next hstep] at hn
      exact ⟨n, Nat.lt_succ_self n, hn⟩
  | tail _ hstep ih =>
    obtain ⟨m, hm, hrun⟩ := ih hn
    cases m with
    | zero => cases hrun
    | succ m =>
      rw [run_succ_next hstep] at hrun
      exact ⟨m, by omega, hrun⟩

/-- A loop that can always come, after at least one iteration, to a state with a
property that its state had, does not end. -/
theorem not_terminates_of_progress {step : σ → Step σ β} {P : σ → Prop}
    (progress : ∀ s, P s → ∃ s', Relation.TransGen (Continues step) s s' ∧ P s') {s : σ}
    (init : P s) : ¬ Terminates step s := by
  rintro ⟨b, n, hn⟩
  induction n using Nat.strongRecOn generalizing s with
  | ind n ih =>
    obtain ⟨s', hs', hP⟩ := progress s init
    obtain ⟨m, hm, hrun⟩ := run_of_transGen hs' hn
    exact ih m hm hP hrun

end FsFat.Loop
