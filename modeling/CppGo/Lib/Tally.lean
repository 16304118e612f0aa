import Mathlib.Data.BitVec
import Mathlib.Data.List.Perm.Subperm
import Mathlib.Tactic.Common

/-!
# Counters of a fixed width

A counter that goes up and down with the items that have a property is their number as far as its
width goes: it may wrap in between.
-/

namespace CppGo.Lib

variable {α : Type*} {w : Nat} {c : BitVec w} {P Q : α → Prop} {x : α}

/-- The counter is the number of the items with the property, modulo `2 ^ w`. -/
def Tallies (c : BitVec w) (P : α → Prop) : Prop :=
  ∃ l : List α, l.Nodup ∧ (∀ x, x ∈ l ↔ P x) ∧ c = BitVec.ofNat w l.length

namespace Tallies

theorem none (h : ∀ x, ¬ P x) : Tallies (0 : BitVec w) P :=
  ⟨[], .nil, fun x => iff_of_false List.not_mem_nil (h x), rfl⟩

theorem congr (h : Tallies c P) (hQ : ∀ x, Q x ↔ P x) : Tallies c Q := by
  obtain ⟨l, hnodup, hmem, hc⟩ := h
  exact ⟨l, hnodup, fun x => (hmem x).trans (hQ x).symm, hc⟩

theorem increase (h : Tallies c P) (hx : ¬ P x) (hQ : ∀ y, Q y ↔ y = x ∨ P y) :
    Tallies (c + 1) Q := by
  obtain ⟨l, hnodup, hmem, rfl⟩ := h
  refine ⟨x :: l, List.nodup_cons.mpr ⟨fun hin => hx ((hmem x).mp hin), hnodup⟩, ?_, ?_⟩
  · intro y
    rw [List.mem_cons, hmem, hQ]
  · rw [List.length_cons, BitVec.ofNat_add]
    rfl

theorem decrease [DecidableEq α] (h : Tallies c P) (hx : P x) (hQ : ∀ y, Q y ↔ P y ∧ y ≠ x) :
    Tallies (c - 1) Q := by
  obtain ⟨l, hnodup, hmem, rfl⟩ := h
  have hin : x ∈ l := (hmem x).mpr hx
  refine ⟨l.erase x, hnodup.erase x, ?_, ?_⟩
  · intro y
    rw [hnodup.mem_erase_iff, hmem, hQ, and_comm]
  · have hlength : l.length = (l.erase x).length + 1 := by
      rw [List.length_erase_of_mem hin]
      have hpos := List.length_pos_of_mem hin
      omega
    rw [hlength, BitVec.ofNat_add]
    exact BitVec.add_sub_cancel _ _

/-- With fewer items than `2 ^ w` the counter is zero when there is none. -/
theorem eq_zero_iff {P : Nat → Prop} {n : Nat} (h : Tallies c P) (hlt : ∀ x, P x → x < n)
    (hn : n < 2 ^ w) : c = 0 ↔ ∀ x, ¬ P x := by
  obtain ⟨l, hnodup, hmem, rfl⟩ := h
  have hlength : l.length ≤ n := by
    have hsubset : l ⊆ List.range n := fun x hx => List.mem_range.mpr (hlt x ((hmem x).mp hx))
    simpa using (hnodup.subperm hsubset).length_le
  constructor
  · intro hzero x hx
    have hmod : l.length % 2 ^ w = 0 := by
      simpa using congrArg BitVec.toNat hzero
    rw [Nat.mod_eq_of_lt (by omega), List.length_eq_zero_iff] at hmod
    rw [← hmem, hmod] at hx
    cases hx
  · intro hnone
    have hnil : l = [] := List.eq_nil_iff_forall_not_mem.mpr fun x hx => hnone x ((hmem x).mp hx)
    rw [hnil]
    rfl

end Tallies

end CppGo.Lib
