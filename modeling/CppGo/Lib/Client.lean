import Mathlib.Data.List.Basic
import Mathlib.Tactic.Common

/-!
# Clients of an environment

A client is a program between its questions to an environment: in a state it asks
one question, and the answer leads it to the next state or to its result.  The
answers of the environment are given as a list, so that a property of a client is a
property for every list of answers.
-/

namespace CppGo.Lib

/-- `start` is where the client asks first, or its result when it asks nothing. -/
structure Client (σ Q A ρ : Type*) where
  start : σ ⊕ ρ
  ask : σ → Q
  hear : σ → A → σ ⊕ ρ

namespace Client

variable {σ Q A ρ ρ' : Type*}

def after (c : Client σ Q A ρ) : σ ⊕ ρ → List A → σ ⊕ ρ
  | .inr r, _ => .inr r
  | .inl s, [] => .inl s
  | .inl s, a :: as => c.after (c.hear s a) as

/-- What the client has asked: one question for each answer, and the one that waits for
an answer. -/
def questions (c : Client σ Q A ρ) : σ ⊕ ρ → List A → List Q
  | .inr _, _ => []
  | .inl s, [] => [c.ask s]
  | .inl s, a :: as => c.ask s :: c.questions (c.hear s a) as

def exchanges (c : Client σ Q A ρ) : σ ⊕ ρ → List A → List (Q × A)
  | .inr _, _ => []
  | .inl _, [] => []
  | .inl s, a :: as => (c.ask s, a) :: c.exchanges (c.hear s a) as

def Fits (c : Client σ Q A ρ) (fit : Q → A → Prop) : σ ⊕ ρ → List A → Prop
  | .inr _, _ => True
  | .inl _, [] => True
  | .inl s, a :: as => fit (c.ask s) a ∧ c.Fits fit (c.hear s a) as

instance decidableFits (c : Client σ Q A ρ) (fit : Q → A → Prop)
    [∀ q a, Decidable (fit q a)] : ∀ p as, Decidable (c.Fits fit p as)
  | .inr _, [] => .isTrue trivial
  | .inr _, _ :: _ => .isTrue trivial
  | .inl _, [] => .isTrue trivial
  | .inl s, a :: as =>
      have := decidableFits c fit (c.hear s a) as
      inferInstanceAs (Decidable (_ ∧ _))

def map (f : ρ → ρ') (c : Client σ Q A ρ) : Client σ Q A ρ' where
  start := c.start.map id f
  ask := c.ask
  hear s a := (c.hear s a).map id f

variable {c : Client σ Q A ρ} {fit : Q → A → Prop}

@[simp] theorem after_inr (r : ρ) (as : List A) : c.after (.inr r) as = .inr r := by
  cases as <;> rfl

@[simp] theorem after_nil (p : σ ⊕ ρ) : c.after p [] = p := by
  cases p <;> rfl

@[simp] theorem questions_inr (r : ρ) (as : List A) : c.questions (.inr r) as = [] := by
  cases as <;> rfl

@[simp] theorem exchanges_inr (r : ρ) (as : List A) : c.exchanges (.inr r) as = [] := by
  cases as <;> rfl

@[simp] theorem exchanges_nil (p : σ ⊕ ρ) : c.exchanges p [] = [] := by
  cases p <;> rfl

/-- What holds of a place and the exchanges before it, and is kept by every answer that
fits, holds wherever the client comes. -/
theorem after_invariant {J : σ ⊕ ρ → List (Q × A) → Prop} {p : σ ⊕ ρ} {xs : List (Q × A)}
    {as : List A} (hfits : c.Fits fit p as) (hstart : J p xs)
    (hstep : ∀ s a xs, J (.inl s) xs → fit (c.ask s) a → J (c.hear s a) (xs ++ [(c.ask s, a)])) :
    J (c.after p as) (xs ++ c.exchanges p as) := by
  induction as generalizing p xs with
  | nil => simpa using hstart
  | cons a as ih =>
      cases p with
      | inr r => simpa using hstart
      | inl s =>
          have hrest := ih hfits.2 (hstep s a xs hstart hfits.1)
          rw [List.append_assoc] at hrest
          exact hrest

/-- What holds where the client starts and is kept by every answer that fits holds
wherever it asks. -/
theorem forall_questions {I : σ → Prop} {P : Q → Prop} {p : σ ⊕ ρ} {as : List A}
    (hfits : c.Fits fit p as) (hstart : ∀ s, p = .inl s → I s)
    (hask : ∀ s, I s → P (c.ask s))
    (hstep : ∀ s a t, I s → fit (c.ask s) a → c.hear s a = .inl t → I t) :
    ∀ q ∈ c.questions p as, P q := by
  induction as generalizing p with
  | nil =>
      intro q hq
      cases p with
      | inl s =>
          rw [questions, List.mem_singleton] at hq
          rw [hq]
          exact hask s (hstart s rfl)
      | inr r => exact absurd hq List.not_mem_nil
  | cons a as ih =>
      intro q hq
      cases p with
      | inl s =>
          rw [questions, List.mem_cons] at hq
          rcases hq with rfl | hq
          · exact hask s (hstart s rfl)
          · exact ih hfits.2 (fun t ht => hstep s a t (hstart s rfl) hfits.1 ht) q hq
      | inr r => exact absurd hq List.not_mem_nil

/-- A client returns when answers that are not skipped lower a rank. -/
theorem after_of_rank {I : σ → Prop} {rank : σ → Nat} (skip : A → Bool) {p : σ ⊕ ρ}
    {as : List A} (hfits : c.Fits fit p as)
    (hstart : ∀ s, p = .inl s → I s ∧ rank s < (as.filter fun a => !skip a).length)
    (hstep : ∀ s a t, I s → fit (c.ask s) a → c.hear s a = .inl t →
      I t ∧ rank t ≤ rank s ∧ (skip a = false → rank t < rank s)) :
    ∃ r, c.after p as = .inr r := by
  induction as generalizing p with
  | nil =>
      cases p with
      | inl s => exact absurd (hstart s rfl).2 (Nat.not_lt_zero _)
      | inr r => exact ⟨r, rfl⟩
  | cons a as ih =>
      cases p with
      | inr r => exact ⟨r, rfl⟩
      | inl s =>
          obtain ⟨hI, hrank⟩ := hstart s rfl
          apply ih hfits.2
          intro t ht
          obtain ⟨hIt, hle, hlt⟩ := hstep s a t hI hfits.1 ht
          refine ⟨hIt, ?_⟩
          cases hskip : skip a with
          | true =>
              rw [List.filter_cons_of_neg (by simp [hskip])] at hrank
              omega
          | false =>
              rw [List.filter_cons_of_pos (by simp [hskip]), List.length_cons] at hrank
              have := hlt hskip
              omega

/-- Two clients that ask the same and hear the same go side by side. -/
theorem exchanges_eq_of_sim {τ : Type*} {d : Client τ Q A ρ'}
    {R : σ ⊕ ρ → τ ⊕ ρ' → List (Q × A) → Prop} {p : σ ⊕ ρ} {q : τ ⊕ ρ'} {xs : List (Q × A)}
    {as : List A} (hfits : c.Fits fit p as) (hstart : R p q xs)
    (hask : ∀ s q xs, R (.inl s) q xs → ∃ t, q = .inl t ∧ c.ask s = d.ask t)
    (hend : ∀ r q xs, R (.inr r) q xs → q.isRight)
    (hstep : ∀ s t a xs, R (.inl s) (.inl t) xs → fit (c.ask s) a →
      R (c.hear s a) (d.hear t a) (xs ++ [(c.ask s, a)])) :
    c.exchanges p as = d.exchanges q as ∧
      R (c.after p as) (d.after q as) (xs ++ c.exchanges p as) := by
  induction as generalizing p q xs with
  | nil => simpa using hstart
  | cons a as ih =>
      cases p with
      | inr r =>
          obtain ⟨r', rfl⟩ := Sum.isRight_iff.mp (hend r q xs hstart)
          simpa using hstart
      | inl s =>
          obtain ⟨t, rfl, hsame⟩ := hask s q xs hstart
          obtain ⟨hexchanges, hafter⟩ := ih hfits.2 (hstep s t a xs hstart hfits.1)
          rw [List.append_assoc] at hafter
          refine ⟨?_, hafter⟩
          rw [exchanges, exchanges, hsame, hexchanges]

section Map

variable (f : ρ → ρ') (p : σ ⊕ ρ) (as : List A)

theorem questions_map : (c.map f).questions (p.map id f) as = c.questions p as := by
  induction as generalizing p with
  | nil => cases p <;> rfl
  | cons a as ih =>
      cases p with
      | inl s => exact congrArg (c.ask s :: ·) (ih _)
      | inr r => rfl

theorem after_map : (c.map f).after (p.map id f) as = (c.after p as).map id f := by
  induction as generalizing p with
  | nil => cases p <;> rfl
  | cons a as ih =>
      cases p with
      | inl s => exact ih _
      | inr r => rfl

theorem exchanges_map : (c.map f).exchanges (p.map id f) as = c.exchanges p as := by
  induction as generalizing p with
  | nil => cases p <;> rfl
  | cons a as ih =>
      cases p with
      | inl s => exact congrArg ((c.ask s, a) :: ·) (ih _)
      | inr r => rfl

theorem fits_map : (c.map f).Fits fit (p.map id f) as ↔ c.Fits fit p as := by
  induction as generalizing p with
  | nil => cases p <;> rfl
  | cons a as ih =>
      cases p with
      | inl s => exact and_congr_right fun _ => ih _
      | inr r => rfl

/-! A whole call with another form of the result. -/

theorem exchanges_start_map :
    (c.map f).exchanges (c.map f).start as = c.exchanges c.start as :=
  exchanges_map f c.start as

theorem fits_start_map : (c.map f).Fits fit (c.map f).start as ↔ c.Fits fit c.start as :=
  fits_map f c.start as

theorem after_start_map_eq_inr {r : ρ'} :
    (c.map f).after (c.map f).start as = .inr r ↔
      ∃ r', c.after c.start as = .inr r' ∧ f r' = r := by
  have hmap : (c.map f).after (c.map f).start as = (c.after c.start as).map id f :=
    after_map f c.start as
  rw [hmap]
  cases c.after c.start as <;> simp

end Map

end Client

end CppGo.Lib
