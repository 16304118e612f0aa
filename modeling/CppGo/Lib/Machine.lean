import Mathlib.Data.List.Basic
import Mathlib.Tactic.Common

/-!
# Labelled machines, their runs, and invariants

A machine is a partial step function `σ → α → Option σ`: `step s a` is the
state after the event `a`, and `none` when `a` cannot happen in `s`.  Several
parties are interleaved by taking one event for each atomic section of each of
them, so a run is any order of those sections.

`Reach step C s t` is reachability by steps that all meet a condition `C` on
the event and the state before it, and `run step C s as` performs the events
`as` while they meet it.  An unconditional run has `C := Free`.
-/

namespace CppGo.Lib.Machine

variable {σ α : Type*}

def Free : σ → α → Prop := fun _ _ => True

instance (s : σ) (a : α) : Decidable (Free s a) := .isTrue trivial

/-- Perform a list of events in order, as long as each one meets `C`. -/
def run (step : σ → α → Option σ) (C : σ → α → Prop) [∀ s a, Decidable (C s a)] :
    σ → List α → Option σ
  | s, [] => some s
  | s, a :: as => if C s a then (step s a).bind fun t => run step C t as else none

inductive Reach (step : σ → α → Option σ) (C : σ → α → Prop) (s : σ) : σ → Prop
  | refl : Reach step C s s
  | tail {t u : σ} {a : α} :
      Reach step C s t → C t a → step t a = some u → Reach step C s u

variable {step : σ → α → Option σ} {C D : σ → α → Prop}

namespace Reach

theorem head {s t u : σ} {a : α} (hc : C s a) (hs : step s a = some t)
    (h : Reach step C t u) : Reach step C s u := by
  induction h with
  | refl => exact .tail .refl hc hs
  | tail _ hc' hs' ih => exact .tail ih hc' hs'

theorem trans {s t u : σ} (hst : Reach step C s t) (htu : Reach step C t u) :
    Reach step C s u := by
  induction htu with
  | refl => exact hst
  | tail _ hc hs ih => exact .tail ih hc hs

/-- A predicate that holds at the start and is kept by every step that meets
the condition holds in every state reached. -/
theorem invariant {I : σ → Prop} {s t : σ} (h : Reach step C s t) (h₀ : I s)
    (hstep : ∀ s a t, I s → C s a → step s a = some t → I t) : I t := by
  induction h with
  | refl => exact h₀
  | tail _ hc hs ih => exact hstep _ _ _ ih hc hs

/-- The same rule where an invariant `I` is already known of every state. -/
theorem invariant_of {I J : σ → Prop} {s t : σ} (h : Reach step C s t)
    (hI : ∀ u, Reach step C s u → I u) (h₀ : J s)
    (hstep : ∀ u a v, I u → J u → C u a → step u a = some v → J v) : J t := by
  induction h with
  | refl => exact h₀
  | tail hst hc hs ih => exact hstep _ _ _ (hI _ hst) ih hc hs

theorem mono {s t : σ} (h : Reach step C s t) (hCD : ∀ s a, C s a → D s a) :
    Reach step D s t := by
  induction h with
  | refl => exact .refl
  | tail _ hc hs ih => exact .tail ih (hCD _ _ hc) hs

end Reach

section Run

variable [∀ s a, Decidable (C s a)]

theorem run_cons_eq_some {s u : σ} {a : α} {as : List α} :
    run step C s (a :: as) = some u ↔
      C s a ∧ ∃ t, step s a = some t ∧ run step C t as = some u := by
  by_cases hc : C s a <;> simp [run, hc, Option.bind_eq_some_iff]

theorem run_append {s u : σ} {as bs : List α} :
    run step C s (as ++ bs) = some u ↔
      ∃ t, run step C s as = some t ∧ run step C t bs = some u := by
  induction as generalizing s with
  | nil => simp [run]
  | cons a as ih =>
      rw [List.cons_append, run_cons_eq_some]
      simp only [ih, run_cons_eq_some]
      constructor
      · rintro ⟨hc, t, ht, v, hv, hu⟩
        exact ⟨v, ⟨hc, t, ht, hv⟩, hu⟩
      · rintro ⟨v, ⟨hc, t, ht, hv⟩, hu⟩
        exact ⟨hc, t, ht, v, hv, hu⟩

theorem reach_of_run {s u : σ} (as : List α) (h : run step C s as = some u) :
    Reach step C s u := by
  induction as generalizing s with
  | nil =>
      obtain rfl : s = u := by simpa [run] using h
      exact .refl
  | cons a as ih =>
      obtain ⟨hc, t, ht, hu⟩ := run_cons_eq_some.mp h
      exact .head hc ht (ih hu)

theorem exists_of_run {P : σ → Prop} [DecidablePred P] {s : σ} {as : List α}
    (h : (run step C s as).any (fun t => P t) = true) : ∃ t, run step C s as = some t ∧ P t := by
  rw [Option.any_eq_true] at h
  obtain ⟨t, ht, hP⟩ := h
  exact ⟨t, ht, of_decide_eq_true hP⟩

/-- Where, under an invariant `I`, every step keeps a property exactly under the condition,
a run keeps it exactly if all its steps meet the condition. -/
theorem run_iff_of {I P : σ → Prop} (hI : ∀ s a t, I s → step s a = some t → I t)
    (hstep : ∀ s a t, I s → step s a = some t → (P t ↔ P s ∧ C s a))
    {s t : σ} {as : List α} (h₀ : I s) (h : run step Free s as = some t) :
    P t ↔ P s ∧ run step C s as = some t := by
  induction as generalizing s with
  | nil =>
      obtain rfl : s = t := by simpa [run] using h
      simp [run]
  | cons a as ih =>
      obtain ⟨-, u, hu, hrun⟩ := run_cons_eq_some.mp h
      rw [ih (hI s a u h₀ hu) hrun, hstep s a u h₀ hu, run_cons_eq_some, and_assoc]
      simp only [hu, Option.some.injEq, exists_eq_left']

/-- Where an invariant `I` that the condition keeps gives a property, and a step that breaks
the condition breaks the property, the property holds all along a run exactly if the
steps of the run all meet the condition. -/
theorem always_iff {I P : σ → Prop} (hP : ∀ s, I s → P s)
    (hI : ∀ s a t, I s → C s a → step s a = some t → I t)
    (hbreak : ∀ s a t, I s → step s a = some t → P t → C s a)
    {s t : σ} {as : List α} (h₀ : I s) (h : run step Free s as = some t) :
    (∀ bs u, bs <+: as → run step Free s bs = some u → P u) ↔ run step C s as = some t := by
  induction as generalizing s with
  | nil =>
      obtain rfl : s = t := by simpa [run] using h
      apply iff_of_true ?_ rfl
      intro bs u hbs hu
      rw [List.prefix_nil.mp hbs] at hu
      cases hu
      exact hP s h₀
  | cons a as ih =>
      obtain ⟨-, v, hv, hrun⟩ := run_cons_eq_some.mp h
      rw [run_cons_eq_some]
      constructor
      · intro hall
        have hstart : run step Free s [a] = some v := by simp [run, Free, hv]
        have hc : C s a := hbreak s a v h₀ hv (hall [a] v ⟨as, rfl⟩ hstart)
        refine ⟨hc, v, hv, (ih (hI s a v h₀ hc hv) hrun).mp fun bs u hbs hu => ?_⟩
        apply hall (a :: bs) u (List.cons_prefix_cons.mpr ⟨rfl, hbs⟩)
        exact run_cons_eq_some.mpr ⟨trivial, v, hv, hu⟩
      · rintro ⟨hc, w, hw, hrun'⟩ bs u hbs hu
        obtain rfl : v = w := Option.some.inj (hv.symm.trans hw)
        cases bs with
        | nil =>
            cases hu
            exact hP s h₀
        | cons b bs =>
            obtain ⟨rfl, hprefix⟩ := List.cons_prefix_cons.mp hbs
            obtain ⟨-, x, hx, hux⟩ := run_cons_eq_some.mp hu
            obtain rfl : v = x := Option.some.inj (hv.symm.trans hx)
            exact (ih (hI s b v h₀ hc hv) hrun).mpr hrun' bs u hprefix hux

/-- Forward simulation: what the abstract machine can do, the other one can do. -/
theorem run_refines {τ : Type*} {step' : τ → α → Option τ} {R : σ → τ → Prop}
    (hstep : ∀ s t a t', R s t → step' t a = some t' → ∃ s', step s a = some s' ∧ R s' t')
    {s : σ} {t t' : τ} {as : List α} (h₀ : R s t) (h : run step' Free t as = some t') :
    ∃ s', run step Free s as = some s' ∧ R s' t' := by
  induction as generalizing s t with
  | nil =>
      obtain rfl : t = t' := by simpa [run] using h
      exact ⟨s, rfl, h₀⟩
  | cons a as ih =>
      obtain ⟨-, u, hu, hrun⟩ := run_cons_eq_some.mp h
      obtain ⟨v, hv, hR⟩ := hstep s t a u h₀ hu
      obtain ⟨s', hs', hR'⟩ := ih hR hrun
      exact ⟨s', run_cons_eq_some.mpr ⟨trivial, v, hv, hs'⟩, hR'⟩

/-- Bisimulation: where related states allow the same steps, to related states, the two machines
have the same runs. -/
theorem run_rel {τ : Type*} {step' : τ → α → Option τ} {D : τ → α → Prop}
    [∀ t a, Decidable (D t a)] {R : σ → τ → Prop} (hcond : ∀ s t a, R s t → (C s a ↔ D t a))
    (hstep : ∀ s t a, R s t → D t a → Option.Rel R (step s a) (step' t a)) {s : σ} {t : τ}
    (as : List α) (h₀ : R s t) : Option.Rel R (run step C s as) (run step' D t as) := by
  induction as generalizing s t with
  | nil => exact .some h₀
  | cons a as ih =>
      unfold run
      by_cases hd : D t a
      · rw [if_pos hd, if_pos ((hcond s t a h₀).mpr hd)]
        have hrel := hstep s t a h₀ hd
        generalize step s a = o, step' t a = o' at hrel
        cases hrel with
        | none => exact .none
        | some hR => exact ih hR
      · rw [if_neg hd, if_neg (mt (hcond s t a h₀).mp hd)]
        exact .none

end Run

end CppGo.Lib.Machine
