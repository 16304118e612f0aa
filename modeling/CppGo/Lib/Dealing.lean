import Mathlib.Algebra.Order.Group.Nat
import Mathlib.Algebra.Ring.Nat
import Mathlib.Data.List.Basic
import Mathlib.Data.List.Perm.Basic
import Mathlib.Logic.Function.Basic
import Mathlib.Tactic.Common

/-!
# Dealing a list in order

The elements of a list are dealt to the places `i`, `i + 1`, .. one after the other, to each
as many as it needs, while there are any; and what the surplus above an average and the
deficit below it have to do with each other.
-/

namespace CppGo.Lib

variable {α : Type*} {need : Nat → Nat} {i n : Nat} {l : List α} {given : Nat → List α}
  {rest : List α}

/-- `l` is dealt to the `n` places from `i` on: `given` is what each gets and `rest` what
nobody gets. -/
structure Deal (need : Nat → Nat) (i n : Nat) (l : List α) (given : Nat → List α)
    (rest : List α) : Prop where
  outside : ∀ p, p < i ∨ i + n ≤ p → given p = []
  split : (List.range' i n).flatMap given ++ rest = l
  atMost : ∀ p, (given p).length ≤ need p
  enough : ((List.range' i n).map need).sum ≤ l.length →
    ∀ p, i ≤ p → p < i + n → (given p).length = need p

namespace Deal

theorem done : Deal need i 0 l (fun _ => []) l where
  outside _ _ := rfl
  split := rfl
  atMost _ := Nat.zero_le _
  enough _ p hle hlt := absurd hle (by omega)

theorem nothing : Deal need i n ([] : List α) (fun _ => []) [] where
  outside _ _ := rfl
  split := by simp
  atMost _ := Nat.zero_le _
  enough hsum p hle hlt := by
    rw [List.length_nil, Nat.le_zero, List.sum_eq_zero_iff_forall_eq_nat] at hsum
    exact (hsum _ (List.mem_map_of_mem (List.mem_range'_1.mpr ⟨hle, hlt⟩))).symm

/-- The place `i` gets what it needs of the first elements. -/
theorem turn (h : Deal need (i + 1) n (l.drop (need i)) given rest) :
    Deal need i (n + 1) l (Function.update given i (l.take (need i))) rest where
  outside p hp := by
    have hne : p ≠ i := by omega
    rw [Function.update_of_ne hne]
    exact h.outside p (by omega)
  split := by
    have hothers : (List.range' (i + 1) n).flatMap
        (Function.update given i (l.take (need i))) = (List.range' (i + 1) n).flatMap given := by
      apply List.flatMap_congr
      intro p hp
      rw [List.mem_range'_1] at hp
      have hne : p ≠ i := by omega
      rw [Function.update_of_ne hne]
    rw [List.range'_succ, List.flatMap_cons, Function.update_self, hothers, List.append_assoc,
      h.split, List.take_append_drop]
  atMost p := by
    by_cases hp : p = i
    · rw [hp, Function.update_self]
      exact List.length_take_le _ _
    · rw [Function.update_of_ne hp]
      exact h.atMost p
  enough hsum p hle hlt := by
    rw [List.range'_succ, List.map_cons, List.sum_cons] at hsum
    by_cases hp : p = i
    · rw [hp, Function.update_self, List.length_take]
      omega
    · rw [Function.update_of_ne hp]
      refine h.enough ?_ p (by omega) (by omega)
      rw [List.length_drop]
      omega

theorem length_flatMap (h : Deal need i n l given rest)
    (hsum : ((List.range' i n).map need).sum ≤ l.length) :
    ((List.range' i n).flatMap given).length = ((List.range' i n).map need).sum := by
  rw [List.length_flatMap]
  congr 1
  apply List.map_congr_left
  intro p hp
  rw [List.mem_range'_1] at hp
  exact h.enough hsum p hp.1 hp.2

theorem length_rest (h : Deal need i n l given rest)
    (hsum : ((List.range' i n).map need).sum ≤ l.length) :
    ((List.range' i n).map need).sum + rest.length = l.length := by
  rw [← h.length_flatMap hsum, ← List.length_append, h.split]

end Deal

section Average

variable {β : Type*} {c : β → Nat} {avg : Nat}

/-- What is missing below `avg` and what is there above it. -/
theorem sum_add_deficit (l : List β) :
    (l.map c).sum + (l.map fun p => avg - c p).sum =
      l.length * avg + (l.map fun p => c p - avg).sum := by
  induction l with
  | nil => simp
  | cons p l ih =>
      have hp : c p + (avg - c p) = avg + (c p - avg) := by omega
      have hlength : (l.length + 1) * avg = l.length * avg + avg := Nat.succ_mul _ _
      simp only [List.map_cons, List.sum_cons, List.length_cons]
      omega

/-- The surplus above the average covers the deficit below it, up to the remainder of the
division. -/
theorem surplus_eq {l : List β} (havg : avg = (l.map c).sum / l.length) :
    (l.map fun p => c p - avg).sum =
      (l.map fun p => avg - c p).sum + (l.map c).sum % l.length := by
  have hboth := @sum_add_deficit β c avg l
  have hdiv := Nat.div_add_mod (l.map c).sum l.length
  rw [← havg] at hdiv
  omega

end Average

end CppGo.Lib
