import Mathlib.Tactic.Common

/-!
# Procedures over the operations of an object

A procedure calls the operations of an object, keeps what they return and returns a value;
an operation that cannot happen ends it without one.  Where one object simulates another,
operation by operation, it does so for every procedure.
-/

namespace CppGo.Lib

abbrev Procedure (σ α : Type) := StateT σ Option α

namespace Procedure

variable {σ τ α β ι ω : Type}

def call (step : σ → ι → Option (σ × ω)) (a : ι) : Procedure σ ω :=
  fun s => (step s a).map Prod.swap

def read (f : σ → Option α) : Procedure σ α :=
  fun s => (f s).map fun a => (a, s)

def stuck : Procedure σ α := fun _ => none

section Runs

variable {s t u : σ} {a : α} {b : β} {c : Procedure σ α} {f : α → Procedure σ β}

theorem pure_run : (pure a : Procedure σ α) s = some (a, s) := rfl

theorem bind_run (hc : c s = some (a, t)) (hf : f a t = some (b, u)) :
    (c >>= f) s = some (b, u) := by
  show (c s).bind (fun r => f r.1 r.2) = _
  rw [hc]
  exact hf

theorem of_bind_run (h : (c >>= f) s = some (b, u)) :
    ∃ a t, c s = some (a, t) ∧ f a t = some (b, u) := by
  obtain ⟨⟨a, t⟩, hc, hf⟩ := Option.bind_eq_some_iff.mp h
  exact ⟨a, t, hc, hf⟩

theorem call_run {step : σ → ι → Option (σ × ω)} {i : ι} {o : ω} (h : step s i = some (t, o)) :
    call step i s = some (o, t) := by
  unfold call
  rw [h]
  rfl

theorem read_run {g : σ → Option α} (h : g s = some a) : read g s = some (a, s) := by
  unfold read
  rw [h]
  rfl

theorem bind_none (hc : c s = none) : (c >>= f) s = none := by
  show (c s).bind (fun r => f r.1 r.2) = none
  rw [hc]
  rfl

theorem read_none {g : σ → Option α} (h : g s = none) : read g s = none := by
  unfold read
  rw [h]
  rfl

theorem bind_stuck : (c >>= fun _ => (stuck : Procedure σ β)) = stuck := by
  funext s
  show (c s).bind (fun _ => none) = none
  cases c s <;> rfl

end Runs

/-- From `s` the procedure returns, and what it returns meets the postcondition. -/
def Ensures (s : σ) (c : Procedure σ α) (Q : α → σ → Prop) : Prop :=
  ∃ a t, c s = some (a, t) ∧ Q a t

section Ensures

variable {s : σ} {c : Procedure σ α} {f : α → Procedure σ β} {R : α → σ → Prop}
  {Q : β → σ → Prop}

theorem ensures_pure {a : α} (h : R a s) : Ensures s (pure a) R :=
  ⟨a, s, rfl, h⟩

theorem Ensures.bind (hc : Ensures s c R) (hf : ∀ a t, R a t → Ensures t (f a) Q) :
    Ensures s (c >>= f) Q := by
  obtain ⟨a, t, hrun, hR⟩ := hc
  obtain ⟨b, u, hrun', hQ⟩ := hf a t hR
  exact ⟨b, u, bind_run hrun hrun', hQ⟩

theorem Ensures.mono {R' : α → σ → Prop} (hc : Ensures s c R) (h : ∀ a t, R a t → R' a t) :
    Ensures s c R' := by
  obtain ⟨a, t, hrun, hR⟩ := hc
  exact ⟨a, t, hrun, h a t hR⟩

theorem ensures_read {g : σ → Option α} {a : α} (hg : g s = some a) (h : R a s) :
    Ensures s (read g) R :=
  ⟨a, s, read_run hg, h⟩

end Ensures

/-- What the second procedure can do the first one can do, with the same result. -/
def Refines (R : σ → τ → Prop) (c : Procedure σ α) (d : Procedure τ α) : Prop :=
  ∀ s t a t', R s t → d t = some (a, t') → ∃ s', c s = some (a, s') ∧ R s' t'

section Refines

variable {R : σ → τ → Prop} {c : Procedure σ α} {d : Procedure τ α}

theorem refines_pure (a : α) : Refines R (pure a) (pure a) := by
  intro s t b t' hR h
  cases h
  exact ⟨s, rfl, hR⟩

theorem refines_stuck : Refines R c stuck := by
  intro s t b t' hR h
  cases h

theorem refines_bind {f : α → Procedure σ β} {g : α → Procedure τ β} (hc : Refines R c d)
    (hf : ∀ a, Refines R (f a) (g a)) : Refines R (c >>= f) (d >>= g) := by
  intro s t b t' hR h
  obtain ⟨a, u, hd, hg⟩ := of_bind_run h
  obtain ⟨v, hv, hR'⟩ := hc s t a u hR hd
  obtain ⟨s', hs', hR''⟩ := hf a v u b t' hR' hg
  exact ⟨s', bind_run hv hs', hR''⟩

theorem refines_ite {p : Prop} [Decidable p] {c' : Procedure σ α} {d' : Procedure τ α}
    (h : Refines R c d) (h' : Refines R c' d') :
    Refines R (if p then c else c') (if p then d else d') := by
  split
  · exact h
  · exact h'

theorem refines_call {step : σ → ι → Option (σ × ω)} {step' : τ → ι → Option (τ × ω)}
    (hstep : ∀ s t i r', R s t → step' t i = some r' →
      ∃ r, step s i = some r ∧ R r.1 r'.1 ∧ r.2 = r'.2) (i : ι) :
    Refines R (call step i) (call step' i) := by
  intro s t o t' hR h
  obtain ⟨r', hr', hswap⟩ := Option.map_eq_some_iff.mp h
  obtain ⟨r, hr, hR', heq⟩ := hstep s t i r' hR hr'
  cases hswap
  exact ⟨r.1, by rw [← heq, call_run hr], hR'⟩

theorem refines_read {f : σ → Option α} {g : τ → Option α}
    (h : ∀ s t a, R s t → g t = some a → f s = some a) : Refines R (read f) (read g) := by
  intro s t a t' hR hg
  obtain ⟨b, hb, heq⟩ := Option.map_eq_some_iff.mp hg
  cases heq
  exact ⟨s, read_run (h s t _ hR hb), hR⟩

end Refines

end Procedure

end CppGo.Lib
