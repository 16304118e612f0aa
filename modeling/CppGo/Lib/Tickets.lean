import Mathlib.Data.List.Nodup
import Mathlib.Data.Nat.ModEq
import Mathlib.Logic.Function.Basic
import Mathlib.Tactic.Common

/-!
# Tickets on a ring of slots

Callers draw tickets `0`, `1`, .. and work at the slot `k % n` of their ticket `k`.  They
finish their work in any order, but give their tickets back in the order in which they
drew them, and no more than `n` are out at a time.
-/

namespace CppGo.Lib

inductive Phase
  | waiting
  | working (slot : Nat)
  | ending (slot : Nat)
  | done
deriving DecidableEq, Repr

/-- `holders` are the callers in the order in which they have drawn; `worked` says of a ticket
that its work is finished, and the tickets below `ended` have been given back. -/
structure Tickets where
  holders : List Nat
  worked : Nat → Bool
  ended : Nat

namespace Tickets

def fresh : Tickets := { holders := [], worked := fun _ => false, ended := 0 }

def drawn (t : Tickets) : Nat := t.holders.length

def draw (t : Tickets) (c : Nat) : Tickets := { t with holders := t.holders ++ [c] }

def work (t : Tickets) (k : Nat) : Tickets := { t with worked := Function.update t.worked k true }

def giveBack (t : Tickets) : Tickets := { t with ended := t.ended + 1 }

/-- The phases in which the holder of the ticket `k` may be. -/
def Stands (t : Tickets) (n k : Nat) : Phase → Prop
  | .waiting => False
  | .working slot => t.ended ≤ k ∧ t.worked k = false ∧ slot = k % n
  | .ending slot => t.ended ≤ k ∧ t.worked k = true ∧ slot = k % n
  | .done => k < t.ended

structure Keeps (t : Tickets) (n : Nat) (phase : Nat → Phase) : Prop where
  nodup : t.holders.Nodup
  ended_le : t.ended ≤ t.drawn
  drawn_le : t.drawn ≤ t.ended + n
  worked_of_lt : ∀ k < t.ended, t.worked k = true
  not_worked : ∀ k, t.drawn ≤ k → t.worked k = false
  stands : ∀ k c, t.holders[k]? = some c → t.Stands n k (phase c)
  holds : ∀ c, phase c ≠ .waiting → c ∈ t.holders

variable {t : Tickets} {n k k' c c' slot : Nat} {phase : Nat → Phase}

/-- Two tickets that may be out together are at different slots. -/
theorem eq_of_mod_eq {a x y : Nat} (hx : a ≤ x) (hx' : x < a + n) (hy : a ≤ y) (hy' : y < a + n)
    (h : x % n = y % n) : x = y := by
  wlog hle : x ≤ y with hsymm
  · exact (hsymm hy hy' hx hx' h.symm (Nat.le_of_not_le hle)).symm
  · have hdvd : n ∣ y - x := (Nat.modEq_iff_dvd' hle).mp h
    by_contra hne
    have := Nat.le_of_dvd (by omega) hdvd
    omega

theorem keeps_fresh (n : Nat) : fresh.Keeps n fun _ => .waiting where
  nodup := List.nodup_nil
  ended_le := Nat.le_refl 0
  drawn_le := Nat.zero_le _
  worked_of_lt _ h := absurd h (Nat.not_lt_zero _)
  not_worked _ _ := rfl
  stands _ _ h := by simp [fresh] at h
  holds _ h := absurd rfl h

@[simp] theorem drawn_draw : (t.draw c).drawn = t.drawn + 1 := List.length_append

/-- The holder of a ticket that is out is at its slot until the work is finished. -/
theorem Stands.working {p : Phase} (h : t.Stands n k p) (hk : t.ended ≤ k)
    (hworked : t.worked k = false) : p = .working (k % n) := by
  cases p with
  | waiting => exact h.elim
  | working slot => rw [h.2.2]
  | ending slot => exact absurd (h.2.1.symm.trans hworked) Bool.noConfusion
  | done => exact absurd h (Nat.not_lt.mpr hk)

theorem lt_drawn (h : t.holders[k]? = some c) : k < t.drawn :=
  (List.getElem?_eq_some_iff.mp h).1

namespace Keeps

theorem holder_unique (h : t.Keeps n phase) (hk : t.holders[k]? = some c)
    (hk' : t.holders[k']? = some c) : k = k' :=
  (List.getElem?_inj (lt_drawn hk) h.nodup).mp (hk.trans hk'.symm)

theorem exists_ticket (h : t.Keeps n phase) (hc : phase c ≠ .waiting) :
    ∃ k, t.holders[k]? = some c ∧ t.Stands n k (phase c) := by
  obtain ⟨k, hk⟩ := List.mem_iff_getElem?.mp (h.holds c hc)
  exact ⟨k, hk, h.stands k c hk⟩

theorem lt_of_worked (h : t.Keeps n phase) (hk : t.worked k = true) : k < t.drawn := by
  by_contra hle
  rw [h.not_worked k (Nat.le_of_not_lt hle)] at hk
  exact Bool.false_ne_true hk

theorem draw (h : t.Keeps n phase) (hc : phase c = .waiting) (hroom : t.drawn < t.ended + n) :
    (t.draw c).Keeps n (Function.update phase c (.working (t.drawn % n))) where
  nodup := by
    apply List.nodup_append.mpr
    refine ⟨h.nodup, List.nodup_singleton c, ?_⟩
    intro a ha b hb
    rw [List.mem_singleton] at hb
    rintro rfl
    subst hb
    obtain ⟨k, hk⟩ := List.mem_iff_getElem?.mp ha
    have hstands := h.stands k _ hk
    rw [hc] at hstands
    exact hstands
  ended_le := by
    rw [drawn_draw]
    exact Nat.le_succ_of_le h.ended_le
  drawn_le := by
    rw [drawn_draw]
    exact hroom
  worked_of_lt := h.worked_of_lt
  not_worked := by
    intro k hk
    rw [drawn_draw] at hk
    exact h.not_worked k (Nat.le_of_succ_le hk)
  stands := by
    intro k c' hk
    by_cases hlt : k < t.drawn
    · have hold : t.holders[k]? = some c' := by
        rw [← hk]
        exact (List.getElem?_append_left hlt).symm
      have hstands := h.stands k c' hold
      have hne : c' ≠ c := by
        rintro rfl
        rw [hc] at hstands
        exact hstands
      rw [Function.update_of_ne hne]
      exact hstands
    · have hlast : k = t.drawn := by
        have := lt_drawn hk
        rw [drawn_draw] at this
        omega
      subst hlast
      have hc' : c = c' := by simpa [Tickets.draw, drawn] using hk
      rw [← hc', Function.update_self]
      exact ⟨h.ended_le, h.not_worked _ (Nat.le_refl _), rfl⟩
  holds := by
    intro c' hc'
    apply List.mem_append.mpr
    by_cases heq : c' = c
    · right
      rw [heq]
      exact List.mem_singleton_self c
    · left
      rw [Function.update_of_ne heq] at hc'
      exact h.holds c' hc'

theorem work (h : t.Keeps n phase) (hc : phase c = .working slot) (hk : t.holders[k]? = some c) :
    (t.work k).Keeps n (Function.update phase c (.ending slot)) where
  nodup := h.nodup
  ended_le := h.ended_le
  drawn_le := h.drawn_le
  worked_of_lt := by
    intro k' hk'
    show Function.update t.worked k true k' = true
    by_cases heq : k' = k
    · rw [heq, Function.update_self]
    · rw [Function.update_of_ne heq]
      exact h.worked_of_lt k' hk'
  not_worked := by
    intro k' hk'
    have hne : k' ≠ k := by
      have := lt_drawn hk
      rintro rfl
      exact absurd this (Nat.not_lt.mpr hk')
    show Function.update t.worked k true k' = false
    rw [Function.update_of_ne hne]
    exact h.not_worked k' hk'
  stands := by
    intro k' c' hk'
    have hstands := h.stands k' c' hk'
    by_cases heq : c' = c
    · subst heq
      obtain rfl := h.holder_unique hk hk'
      rw [hc] at hstands
      rw [Function.update_self]
      exact ⟨hstands.1, Function.update_self .., hstands.2.2⟩
    · have hne : k' ≠ k := by
        rintro rfl
        exact heq (Option.some.inj (hk'.symm.trans hk))
      have hsame : (t.work k).worked k' = t.worked k' := Function.update_of_ne hne ..
      rw [Function.update_of_ne heq]
      generalize phase c' = p at hstands ⊢
      cases p with
      | waiting => exact hstands
      | working slot => exact ⟨hstands.1, hsame.trans hstands.2.1, hstands.2.2⟩
      | ending slot => exact ⟨hstands.1, hsame.trans hstands.2.1, hstands.2.2⟩
      | done => exact hstands
  holds := by
    intro c' hc'
    by_cases heq : c' = c
    · rw [heq]
      exact List.mem_of_getElem? hk
    · rw [Function.update_of_ne heq] at hc'
      exact h.holds c' hc'

/-- The next ticket to be given back is that of the caller whose slot it is. -/
theorem holder_of_slot (h : t.Keeps n phase) (hc : phase c = .ending slot)
    (hslot : slot = t.ended % n) : t.holders[t.ended]? = some c ∧ t.worked t.ended = true := by
  obtain ⟨k, hk, hstands⟩ := h.exists_ticket (c := c) (by rw [hc]; exact Phase.noConfusion)
  rw [hc] at hstands
  obtain ⟨hle, hworked, hmod⟩ := hstands
  have hlt := lt_drawn hk
  have hroom := h.drawn_le
  have heq : k = t.ended :=
    eq_of_mod_eq hle (by omega) (Nat.le_refl _) (by omega) (hmod.symm.trans hslot)
  exact ⟨heq ▸ hk, heq ▸ hworked⟩

theorem giveBack (h : t.Keeps n phase) (hc : phase c = .ending slot) (hslot : slot = t.ended % n) :
    t.giveBack.Keeps n (Function.update phase c .done) := by
  obtain ⟨hk, hworked⟩ := h.holder_of_slot hc hslot
  constructor
  case nodup => exact h.nodup
  case ended_le => exact lt_drawn hk
  case drawn_le =>
    have := h.drawn_le
    show t.drawn ≤ t.ended + 1 + n
    omega
  case worked_of_lt =>
    intro k hlt
    by_cases heq : k = t.ended
    · rw [heq]
      exact hworked
    · apply h.worked_of_lt k
      have : k < t.ended + 1 := hlt
      omega
  case not_worked => exact h.not_worked
  case stands =>
    intro k c' hk'
    have hstands := h.stands k c' hk'
    by_cases heq : c' = c
    · subst heq
      obtain rfl := h.holder_unique hk hk'
      rw [Function.update_self]
      exact Nat.lt_succ_self t.ended
    · have hne : k ≠ t.ended := by
        rintro rfl
        exact heq (Option.some.inj (hk'.symm.trans hk))
      rw [Function.update_of_ne heq]
      generalize phase c' = p at hstands ⊢
      cases p with
      | waiting => exact hstands
      | working slot => exact ⟨Nat.lt_of_le_of_ne hstands.1 hne.symm, hstands.2⟩
      | ending slot => exact ⟨Nat.lt_of_le_of_ne hstands.1 hne.symm, hstands.2⟩
      | done => exact Nat.lt_succ_of_lt hstands
  case holds =>
    intro c' hc'
    by_cases heq : c' = c
    · rw [heq]
      exact List.mem_of_getElem? hk
    · rw [Function.update_of_ne heq] at hc'
      exact h.holds c' hc'

end Keeps

end Tickets

end CppGo.Lib
