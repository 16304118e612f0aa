import Mathlib.Data.List.Nodup
import Mathlib.Data.List.Perm.Basic
import Mathlib.Tactic.Common

/-!
# Items in places

A family of lists `c : ι → List α` says which items are in which place.  `Placed c all`
says that every item of `all`, and no other, is in one place, and once in it.  The order
of a list plays no part, so a step is described by permutations.
-/

namespace CppGo.Lib

variable {ι α : Type*}

structure Placed (c : ι → List α) (all : α → Prop) : Prop where
  nodup : ∀ i, (c i).Nodup
  place_unique : ∀ {i j x}, x ∈ c i → x ∈ c j → i = j
  mem_iff : ∀ x, all x ↔ ∃ i, x ∈ c i

namespace Placed

variable {c d : ι → List α} {all all' : α → Prop} {i j k : ι} {x : α} {l : List α}

theorem not_mem (h : Placed c all) (hx : x ∈ c i) (hij : i ≠ j) : x ∉ c j :=
  fun hj => hij (h.place_unique hx hj)

theorem count_eq_one [DecidableEq α] (h : Placed c all) (hx : x ∈ c i) : (c i).count x = 1 :=
  List.count_eq_one_of_mem (h.nodup i) hx

theorem perm (h : Placed c all) (hd : ∀ k, (d k).Perm (c k)) : Placed d all := by
  constructor
  · intro k
    exact (hd k).nodup_iff.mpr (h.nodup k)
  · intro i j x hi hj
    exact h.place_unique ((hd i).mem_iff.mp hi) ((hd j).mem_iff.mp hj)
  · intro x
    rw [h.mem_iff]
    exact exists_congr fun k => (hd k).mem_iff.symm

section Move

variable (h : Placed c all) (hij : i ≠ j) (hi : (c i).Perm (l ++ d i))
  (hj : (d j).Perm (l ++ c j)) (hother : ∀ k, k ≠ i → k ≠ j → (d k).Perm (c k))

include h hij hi hj hother

private theorem mem_move : x ∈ d k ↔ x ∈ l ∧ k = j ∨ x ∉ l ∧ x ∈ c k := by
  have hmoved : ∀ y ∈ l, y ∈ c i := fun y hy => hi.mem_iff.mpr (List.mem_append_left _ hy)
  by_cases hkj : k = j
  · subst hkj
    rw [hj.mem_iff, List.mem_append]
    by_cases hx : x ∈ l <;> simp [hx]
  · have hstay : x ∈ c k ∧ x ∉ l ↔ x ∈ d k := by
      by_cases hki : k = i
      · subst hki
        have hnodup := hi.nodup_iff.mp (h.nodup k)
        rw [hi.mem_iff, List.mem_append]
        constructor
        · rintro ⟨hl | hd, hx⟩
          · exact absurd hl hx
          · exact hd
        · intro hd
          exact ⟨.inr hd, fun hl => (List.nodup_append.mp hnodup).2.2 x hl x hd rfl⟩
      · rw [(hother k hki hkj).mem_iff]
        exact ⟨And.left, fun hk => ⟨hk, fun hl => hki (h.place_unique hk (hmoved x hl))⟩⟩
    rw [← hstay]
    simp [hkj, and_comm]

/-- The items of `l` go from the place `i` to the place `j`. -/
theorem move : Placed d all := by
  have hmem : ∀ {k x}, x ∈ d k ↔ x ∈ l ∧ k = j ∨ x ∉ l ∧ x ∈ c k :=
    mem_move h hij hi hj hother
  have hmoved : ∀ y ∈ l, y ∈ c i := fun y hy => hi.mem_iff.mpr (List.mem_append_left _ hy)
  have hnodup := List.nodup_append.mp (hi.nodup_iff.mp (h.nodup i))
  constructor
  · intro k
    by_cases hkj : k = j
    · subst hkj
      rw [hj.nodup_iff, List.nodup_append]
      refine ⟨hnodup.1, h.nodup k, ?_⟩
      intro y hy z hz hyz
      subst hyz
      exact hij (h.place_unique (hmoved y hy) hz)
    · by_cases hki : k = i
      · subst hki
        exact hnodup.2.1
      · exact (hother k hki hkj).nodup_iff.mpr (h.nodup k)
  · intro k m y hk hm
    rcases hmem.mp hk with ⟨hy, rfl⟩ | ⟨hy, hk⟩
    · rcases hmem.mp hm with ⟨_, rfl⟩ | ⟨hy', _⟩
      · rfl
      · exact absurd hy hy'
    · rcases hmem.mp hm with ⟨hy', _⟩ | ⟨_, hm⟩
      · exact absurd hy' hy
      · exact h.place_unique hk hm
  · intro y
    rw [h.mem_iff]
    constructor
    · rintro ⟨k, hk⟩
      by_cases hy : y ∈ l
      · exact ⟨j, hmem.mpr (.inl ⟨hy, rfl⟩)⟩
      · exact ⟨k, hmem.mpr (.inr ⟨hy, hk⟩)⟩
    · rintro ⟨k, hk⟩
      rcases hmem.mp hk with ⟨hy, _⟩ | ⟨_, hk⟩
      · exact ⟨i, hmoved y hy⟩
      · exact ⟨k, hk⟩

end Move

/-- The new item `x` comes to the place `j`. -/
theorem add (h : Placed c all) (hx : ¬ all x) (hall : ∀ y, all' y ↔ y = x ∨ all y)
    (hj : (d j).Perm (x :: c j)) (hother : ∀ k, k ≠ j → (d k).Perm (c k)) : Placed d all' := by
  have hnew : ∀ k, x ∉ c k := fun k hk => hx ((h.mem_iff x).mpr ⟨k, hk⟩)
  have hmem : ∀ {k y}, y ∈ d k ↔ y = x ∧ k = j ∨ y ∈ c k := by
    intro k y
    by_cases hkj : k = j
    · subst hkj
      simp [hj.mem_iff]
    · simp [(hother k hkj).mem_iff, hkj]
  constructor
  · intro k
    by_cases hkj : k = j
    · subst hkj
      rw [hj.nodup_iff, List.nodup_cons]
      exact ⟨hnew k, h.nodup k⟩
    · exact (hother k hkj).nodup_iff.mpr (h.nodup k)
  · intro k m y hk hm
    rcases hmem.mp hk with ⟨rfl, rfl⟩ | hk
    · rcases hmem.mp hm with ⟨_, rfl⟩ | hm
      · rfl
      · exact absurd hm (hnew m)
    · rcases hmem.mp hm with ⟨rfl, _⟩ | hm
      · exact absurd hk (hnew k)
      · exact h.place_unique hk hm
  · intro y
    rw [hall, h.mem_iff]
    constructor
    · rintro (rfl | ⟨k, hk⟩)
      · exact ⟨j, hmem.mpr (.inl ⟨rfl, rfl⟩)⟩
      · exact ⟨k, hmem.mpr (.inr hk)⟩
    · rintro ⟨k, hk⟩
      rcases hmem.mp hk with ⟨rfl, _⟩ | hk
      · exact .inl rfl
      · exact .inr ⟨k, hk⟩

end Placed

end CppGo.Lib
