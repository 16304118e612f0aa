import Mathlib.Data.List.Perm.Basic
import Mathlib.Tactic.Common

/-!
# Sets of flags

A bit vector as the set of its bits: the union of a list of masks, and what is left of
it when some bits are taken away.
-/

namespace CppGo.Lib.Flags

variable {w : Nat}

def IsFlag (x : BitVec w) : Prop := ∃ k < w, x = BitVec.twoPow w k

def union (l : List (BitVec w)) : BitVec w := l.foldr (· ||| ·) 0

variable {x m : BitVec w} {l l' : List (BitVec w)}

@[simp] theorem union_nil : union ([] : List (BitVec w)) = 0 := rfl

@[simp] theorem union_cons : union (x :: l) = x ||| union l := rfl

theorem union_perm (h : l.Perm l') : union l = union l' := by
  induction h with
  | nil => rfl
  | cons x _ ih => rw [union_cons, union_cons, ih]
  | swap x y l =>
      rw [union_cons, union_cons, union_cons, union_cons, ← BitVec.or_assoc, ← BitVec.or_assoc,
        BitVec.or_comm x y]
  | trans _ _ ih ih' => rw [ih, ih']

theorem union_eq_zero_iff : union l = 0 ↔ ∀ x ∈ l, x = 0 := by
  induction l with
  | nil => simp
  | cons x l ih =>
      rw [union_cons, List.forall_mem_cons, ← ih]
      exact BitVec.or_eq_zero_iff

theorem union_and (m : BitVec w) : union l &&& m = union (l.map (· &&& m)) := by
  induction l with
  | nil => simp
  | cons x l ih =>
      rw [union_cons, List.map_cons, union_cons, ← ih]
      ext i hi
      simp [Bool.and_or_distrib_right]

theorem IsFlag.ne_zero (h : IsFlag x) : x ≠ 0 := by
  obtain ⟨k, hk, rfl⟩ := h
  intro hzero
  have hbit := congrArg (BitVec.getLsbD · k) hzero
  simp [hk] at hbit

theorem IsFlag.and_not (h : IsFlag x) : x &&& ~~~m = if m &&& x = 0 then x else 0 := by
  have hne := h.ne_zero
  obtain ⟨k, hk, rfl⟩ := h
  rw [BitVec.twoPow_and, BitVec.and_twoPow, BitVec.getLsbD_not]
  cases hbit : m.getLsbD k with
  | false => simp [hk]
  | true =>
      rw [if_pos rfl, if_neg hne]
      simp

/-- Taking the bits of `m` away leaves the flags that are not in `m`. -/
theorem union_and_not (h : ∀ x ∈ l, IsFlag x) :
    union l &&& ~~~m = union (l.filter fun x => m &&& x = 0) := by
  induction l with
  | nil => simp
  | cons x l ih =>
      rw [List.forall_mem_cons] at h
      have hl : (x :: l).map (· &&& ~~~m) = (x &&& ~~~m) :: l.map (· &&& ~~~m) := rfl
      rw [union_and, hl, union_cons, ← union_and, ih h.2, h.1.and_not]
      by_cases hx : m &&& x = 0
      · rw [if_pos hx, List.filter_cons_of_pos (by simpa using hx), union_cons]
      · rw [if_neg hx, List.filter_cons_of_neg (by simpa using hx)]
        exact BitVec.zero_or

theorem union_and_not_of_disjoint (h : ∀ x ∈ l, x &&& ~~~m = x) : union l &&& ~~~m = union l := by
  rw [union_and]
  congr 1
  calc l.map (· &&& ~~~m) = l.map id := List.map_congr_left h
    _ = l := List.map_id l

end CppGo.Lib.Flags
