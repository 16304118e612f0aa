import Mathlib.Data.List.Count
import Mathlib.Data.List.Induction

/-!
# Histories

A history is the list of what has been observed, in order.  It is lawful when every
entry is allowed by the entries before it.
-/

namespace CppGo.Lib

variable {α : Type*} {ok : List α → α → Prop} {history os : List α} {o : α}

def Lawful (ok : List α → α → Prop) (history : List α) : Prop :=
  ∀ pre o post, history = pre ++ o :: post → ok pre o

theorem lawful_nil : Lawful ok [] := by
  intro pre o post h
  simp at h

theorem Lawful.concat (h : Lawful ok history) (ho : ok history o) :
    Lawful ok (history ++ [o]) := by
  intro pre x post hsplit
  rcases List.eq_nil_or_concat post with rfl | ⟨post, y, rfl⟩
  · obtain ⟨rfl, hx⟩ := List.append_inj' hsplit rfl
    cases hx
    exact ho
  · rw [List.concat_eq_append, ← List.cons_append, ← List.append_assoc] at hsplit
    exact h pre x post (List.append_inj' hsplit rfl).1

theorem Lawful.append (h : Lawful ok history) (hos : ∀ o ∈ os, ∀ pre, ok pre o) :
    Lawful ok (history ++ os) := by
  induction os using List.reverseRecOn with
  | nil => simpa using h
  | append_singleton os o ih =>
      rw [← List.append_assoc]
      apply Lawful.concat
      · exact ih fun x hx => hos x (List.mem_append_left _ hx)
      · exact hos o (by simp) _

theorem Lawful.of_concat (h : Lawful ok (history ++ [o])) : Lawful ok history ∧ ok history o := by
  constructor
  · rintro pre x post rfl
    exact h pre x (post ++ [o]) (by simp)
  · exact h history o [] rfl

/-- What is allowed only where it has not been observed is observed once. -/
theorem Lawful.count_le_one [BEq α] [LawfulBEq α] (h : Lawful ok history)
    (hok : ∀ pre, ok pre o → o ∉ pre) : history.count o ≤ 1 := by
  induction history using List.reverseRecOn with
  | nil => simp
  | append_singleton history x ih =>
      have hle := ih h.of_concat.1
      rw [List.count_append, List.count_singleton]
      split
      · rename_i hx
        have hout := hok history (eq_of_beq hx ▸ h.of_concat.2)
        have := List.count_eq_zero.mpr hout
        omega
      · omega

end CppGo.Lib
