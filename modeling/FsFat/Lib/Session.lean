import Mathlib.Data.List.Forall2

/-!
Machines that answer requests. A request gives a response and the next state.
What every request preserves holds after any sequence of them, and two machines
that respond alike in related states give the same responses to a sequence. Handles that
requests give out are kept in tables where no two of them have the same address.
-/

namespace FsFat.Session

variable {σ τ ρ α β : Type*}

/-- The state after the requests. -/
def after (respond : σ → ρ → σ × α) : σ → List ρ → σ
  | s, [] => s
  | s, request :: requests => after respond (respond s request).1 requests

/-- The responses to the requests, in order. -/
def responses (respond : σ → ρ → σ × α) : σ → List ρ → List α
  | _, [] => []
  | s, request :: requests =>
    (respond s request).2 :: responses respond (respond s request).1 requests

section Runs

variable {respond : σ → ρ → σ × α} {s : σ}

@[simp] theorem after_nil : after respond s [] = s := rfl

@[simp] theorem after_cons (request : ρ) (requests : List ρ) :
    after respond s (request :: requests) = after respond (respond s request).1 requests := rfl

/-- What the requests preserve holds after them. -/
theorem after_invariant {I : σ → Prop} {P : ρ → Prop} {requests : List ρ}
    (hstep : ∀ s request, P request → I s → I (respond s request).1)
    (hrequests : ∀ request ∈ requests, P request) (hs : I s) : I (after respond s requests) := by
  induction requests generalizing s with
  | nil => exact hs
  | cons request requests ih =>
    obtain ⟨hrequest, hrequests⟩ := List.forall_mem_cons.mp hrequests
    exact ih hrequests (hstep s request hrequest hs)

/-- What holds of every response holds of all of them. -/
theorem responses_forall {Q : α → Prop} (h : ∀ s request, Q (respond s request).2)
    (requests : List ρ) : ∀ response ∈ responses respond s requests, Q response := by
  induction requests generalizing s with
  | nil => exact fun response hmem => by cases hmem
  | cons request requests ih => exact List.forall_mem_cons.mpr ⟨h s request, ih⟩

end Runs

/-- Machines that respond alike in related states, and are in related states after that. -/
theorem responses_related {respond : σ → ρ → σ × α} {respond' : τ → ρ → τ × β}
    {R : σ → τ → Prop} {Q : α → β → Prop}
    (hstep : ∀ s t request, R s t →
      R (respond s request).1 (respond' t request).1 ∧
        Q (respond s request).2 (respond' t request).2)
    {s : σ} {t : τ} (h : R s t) (requests : List ρ) :
    R (after respond s requests) (after respond' t requests) ∧
      List.Forall₂ Q (responses respond s requests) (responses respond' t requests) := by
  induction requests generalizing s t with
  | nil => exact ⟨h, .nil⟩
  | cons request requests ih =>
    obtain ⟨hnext, hresponse⟩ := hstep s t request h
    obtain ⟨hafter, hresponses⟩ := ih hnext
    exact ⟨hafter, .cons hresponse hresponses⟩

section Handles

variable {η : Type*} [DecidableEq η] {addresses : η → Option α} {handle : η} {address : α}

/-- No two handles have the same address. -/
def Distinct (addresses : η → Option α) : Prop :=
  ∀ first second address, addresses first = some address → addresses second = some address →
    first = second

/-- A handle gets an address that no handle has. -/
theorem Distinct.update_some (h : Distinct addresses)
    (hnew : ∀ other, addresses other ≠ some address) :
    Distinct (Function.update addresses handle (some address)) := by
  intro first second address' hfirst hsecond
  rw [Function.update_apply] at hfirst hsecond
  split_ifs at hfirst hsecond with hone htwo htwo
  · exact hone.trans htwo.symm
  · exact absurd (hsecond.trans hfirst.symm) (hnew second)
  · exact absurd (hfirst.trans hsecond.symm) (hnew first)
  · exact h first second address' hfirst hsecond

theorem update_none_eq_some_iff {other : η} :
    Function.update addresses handle none other = some address ↔
      other ≠ handle ∧ addresses other = some address := by
  rw [Function.update_apply]
  split_ifs with hsame
  · simp [hsame]
  · simp [hsame]

/-- A handle is forgotten. -/
theorem Distinct.update_none (h : Distinct addresses) :
    Distinct (Function.update addresses handle none) := by
  intro first second address' hfirst hsecond
  exact h first second address' (update_none_eq_some_iff.mp hfirst).2
    (update_none_eq_some_iff.mp hsecond).2

/-- The next address is used. -/
theorem lt_succ_of_update_ne_none {allocated : Nat → Option α} {next : Nat} {value : Option α}
    (h : ∀ number, allocated number ≠ none → number < next) {number : Nat}
    (hnumber : Function.update allocated next value number ≠ none) : number < next + 1 := by
  rw [Function.update_apply] at hnumber
  split_ifs at hnumber with hsame
  · exact hsame ▸ Nat.lt_succ_self next
  · exact Nat.lt_succ_of_lt (h number hnumber)

end Handles

end FsFat.Session
