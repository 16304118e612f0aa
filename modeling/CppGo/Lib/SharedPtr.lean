import Mathlib.Data.List.Basic
import Mathlib.Tactic.Common

/-!
# Shared pointers

A heap of reference-counted cells.  The cell that loses its last reference is deleted, and
the log `deleted` says in which order.  `Held h refs` says that `refs` lists all references
that there are, with `none` for a pointer that is empty.
-/

namespace CppGo.Lib

structure Cell (α : Type*) where
  value : α
  use_count : Nat
deriving Repr

structure SharedPtrs (α : Type*) where
  cells : List (Cell α)
  deleted : List Nat

variable {α : Type*}

theorem perm_cons_set {a : α} (x : α) {l : List α} {n : Nat} (hn : l[n]? = some a) :
    (x :: l).Perm (a :: l.set n x) := by
  induction l generalizing n with
  | nil => cases hn
  | cons y l ih =>
      cases n with
      | zero =>
          cases hn
          exact .swap a x l
      | succ n =>
          have hrest : (x :: l).Perm (a :: l.set n x) := ih hn
          calc List.Perm (x :: y :: l) (y :: x :: l) := .swap y x l
            List.Perm _ (y :: a :: l.set n x) := hrest.cons y
            List.Perm _ (a :: y :: l.set n x) := .swap a y _

namespace SharedPtrs

def empty : SharedPtrs α := { cells := [], deleted := [] }

def use_count (h : SharedPtrs α) (b : Nat) : Nat := (h.cells[b]?.map Cell.use_count).getD 0

def value (h : SharedPtrs α) (b : Nat) : Option α := h.cells[b]?.map Cell.value

def update (h : SharedPtrs α) (b : Nat) (f : Cell α → Cell α) : SharedPtrs α :=
  { h with cells := h.cells.modify b f }

def make (h : SharedPtrs α) (value : α) : SharedPtrs α :=
  { h with cells := h.cells ++ [{ value := value, use_count := 1 }] }

def store (h : SharedPtrs α) (b : Nat) (value : α) : SharedPtrs α :=
  h.update b fun c => { c with value := value }

def retain (h : SharedPtrs α) (b : Nat) : SharedPtrs α :=
  h.update b fun c => { c with use_count := c.use_count + 1 }

def release (h : SharedPtrs α) (b : Nat) : SharedPtrs α :=
  let h' := h.update b fun c => { c with use_count := c.use_count - 1 }
  if h'.use_count b = 0 then { h' with deleted := h'.deleted ++ [b] } else h'

structure Held (h : SharedPtrs α) (refs : List (Option Nat)) : Prop where
  count : ∀ b, h.use_count b = refs.count (some b)
  deleted : ∀ b < h.cells.length, h.deleted.count b = if h.use_count b = 0 then 1 else 0
  bound : ∀ b ∈ h.deleted, b < h.cells.length

section Fields

variable {h : SharedPtrs α} {b c : Nat} {v : α}

theorem use_count_update (f : Cell α → Cell α) : (h.update b f).use_count c =
    if b = c then (h.cells[b]?.map fun x => (f x).use_count).getD 0 else h.use_count c := by
  unfold use_count update
  rw [List.getElem?_modify]
  by_cases hbc : b = c
  · subst hbc
    cases h.cells[b]? <;> simp
  · simp [hbc]

theorem value_update (f : Cell α → Cell α) : (h.update b f).value c =
    if b = c then h.cells[b]?.map fun x => (f x).value else h.value c := by
  unfold value update
  rw [List.getElem?_modify]
  by_cases hbc : b = c
  · subst hbc
    cases h.cells[b]? <;> simp
  · simp [hbc]

@[simp] theorem length_update (f : Cell α → Cell α) :
    (h.update b f).cells.length = h.cells.length :=
  List.length_modify ..

@[simp] theorem use_count_store : (h.store b v).use_count c = h.use_count c := by
  unfold store
  rw [use_count_update]
  split
  · rename_i hbc
    rw [hbc]
    rfl
  · rfl

theorem value_store (hb : b < h.cells.length) :
    (h.store b v).value c = if b = c then some v else h.value c := by
  unfold store
  rw [value_update, List.getElem?_eq_getElem hb]
  rfl

@[simp] theorem value_retain : (h.retain b).value c = h.value c := by
  unfold retain
  rw [value_update]
  split
  · rename_i hbc
    rw [hbc]
    rfl
  · rfl

theorem use_count_retain (hb : b < h.cells.length) :
    (h.retain b).use_count c = h.use_count c + if b = c then 1 else 0 := by
  unfold retain
  rw [use_count_update]
  split
  · rename_i hbc
    subst hbc
    rw [use_count, List.getElem?_eq_getElem hb]
    rfl
  · rfl

@[simp] theorem value_release : (h.release b).value c = h.value c := by
  have hvalue : (h.update b fun c => { c with use_count := c.use_count - 1 }).value c =
      h.value c := by
    rw [value_update]
    split
    · rename_i hbc
      rw [hbc]
      rfl
    · rfl
  unfold release
  dsimp only
  split <;> exact hvalue

theorem use_count_release :
    (h.release b).use_count c = h.use_count c - if b = c then 1 else 0 := by
  have hcount : (h.update b fun c => { c with use_count := c.use_count - 1 }).use_count c =
      h.use_count c - if b = c then 1 else 0 := by
    rw [use_count_update]
    split
    · rename_i hbc
      subst hbc
      unfold use_count
      cases h.cells[b]? <;> simp
    · rfl
  unfold release
  dsimp only
  split <;> exact hcount

theorem value_make : (h.make v).value c =
    if c = h.cells.length then some v else h.value c := by
  unfold value make
  by_cases hc : c = h.cells.length
  · simp [hc]
  · rcases Nat.lt_or_gt_of_ne hc with hlt | hgt
    · simp [hc, List.getElem?_append_left hlt]
    · have hout : h.cells[c]? = none := List.getElem?_eq_none (by omega)
      rw [if_neg hc, hout, List.getElem?_eq_none (by simp; omega)]

theorem use_count_make : (h.make v).use_count c =
    if c = h.cells.length then 1 else h.use_count c := by
  unfold use_count make
  by_cases hc : c = h.cells.length
  · simp [hc]
  · rcases Nat.lt_or_gt_of_ne hc with hlt | hgt
    · simp [hc, List.getElem?_append_left hlt]
    · have hout : h.cells[c]? = none := List.getElem?_eq_none (by omega)
      rw [if_neg hc, hout, List.getElem?_eq_none (by simp; omega)]

theorem use_count_of_length_le (hb : h.cells.length ≤ b) : h.use_count b = 0 := by
  rw [use_count, List.getElem?_eq_none hb]
  rfl

theorem lt_of_use_count (hb : 0 < h.use_count b) : b < h.cells.length := by
  by_contra hle
  rw [use_count_of_length_le (by omega)] at hb
  omega

theorem lt_of_value (hb : h.value b = some v) : b < h.cells.length := by
  by_contra hle
  rw [value, List.getElem?_eq_none (by omega)] at hb
  cases hb

end Fields

/-! ## All references -/

variable {h : SharedPtrs α} {refs refs' : List (Option Nat)} {b : Nat}

theorem held_empty : (empty : SharedPtrs α).Held [] :=
  ⟨fun _ => rfl, fun _ hb => absurd hb (Nat.not_lt_zero _), fun _ hb => absurd hb List.not_mem_nil⟩

theorem Held.perm (hh : h.Held refs) (hperm : refs.Perm refs') : h.Held refs' where
  count b := (hh.count b).trans (hperm.count_eq _)
  deleted := hh.deleted
  bound := hh.bound

theorem held_none_cons : h.Held (none :: refs) ↔ h.Held refs := by
  constructor
  · intro hh
    exact ⟨fun b => by simpa using hh.count b, hh.deleted, hh.bound⟩
  · intro hh
    exact ⟨fun b => by simpa using hh.count b, hh.deleted, hh.bound⟩

theorem Held.pos (hh : h.Held refs) : 0 < h.use_count b ↔ some b ∈ refs := by
  rw [hh.count, List.count_pos_iff]

theorem Held.make (hh : h.Held refs) (v : α) :
    (h.make v).Held (some h.cells.length :: refs) where
  count b := by
    rw [use_count_make, List.count_cons]
    by_cases hb : b = h.cells.length
    · have hzero : refs.count (some b) = 0 := by
        rw [← hh.count, use_count_of_length_le (Nat.le_of_eq hb.symm)]
      simp [hb ▸ hzero, hb]
    · rw [if_neg hb, hh.count]
      simp [Ne.symm hb]
  deleted b hb := by
    rw [use_count_make]
    by_cases hlast : b = h.cells.length
    · have hnew : b ∉ h.deleted := fun hin => by
        have := hh.bound b hin
        omega
      simp [hlast, List.count_eq_zero_of_not_mem (hlast ▸ hnew), SharedPtrs.make]
    · rw [if_neg hlast]
      have hlt : b < h.cells.length := by
        have hlen : (h.make v).cells.length = h.cells.length + 1 := List.length_append
        omega
      exact hh.deleted b hlt
  bound b hb := by
    have hlt := hh.bound b hb
    have hlen : (h.make v).cells.length = h.cells.length + 1 := List.length_append
    omega

theorem Held.store (hh : h.Held refs) (v : α) : (h.store b v).Held refs where
  count c := by rw [use_count_store, hh.count]
  deleted c hc := by
    rw [use_count_store]
    exact hh.deleted c (by simpa [SharedPtrs.store] using hc)
  bound c hc := by simpa [SharedPtrs.store] using hh.bound c hc

theorem Held.retain (hh : h.Held refs) (hb : some b ∈ refs) :
    (h.retain b).Held (some b :: refs) where
  count c := by
    rw [use_count_retain (lt_of_use_count (hh.pos.mpr hb)), hh.count, List.count_cons]
    simp
  deleted c hc := by
    have hpos := hh.pos.mpr hb
    rw [use_count_retain (lt_of_use_count hpos)]
    have hold := hh.deleted c (by simpa [SharedPtrs.retain] using hc)
    by_cases hbc : b = c
    · subst hbc
      rw [if_neg (by omega)] at hold
      rw [if_pos rfl, if_neg (by omega)]
      exact hold
    · rw [if_neg hbc, Nat.add_zero]
      exact hold
  bound c hc := by simpa [SharedPtrs.retain] using hh.bound c hc

theorem Held.release (hh : h.Held (some b :: refs)) : (h.release b).Held refs := by
  have hpos : 0 < h.use_count b := hh.pos.mpr List.mem_cons_self
  have hlen : (h.release b).cells.length = h.cells.length := by
    unfold SharedPtrs.release
    dsimp only
    split <;> exact length_update _
  have hdeleted : (h.release b).deleted =
      if h.use_count b = 1 then h.deleted ++ [b] else h.deleted := by
    have hcount : (h.release b).use_count b = h.use_count b - 1 := by
      rw [use_count_release, if_pos rfl]
    have hcount' : (h.update b fun c => { c with use_count := c.use_count - 1 }).use_count b =
        h.use_count b - 1 := by
      rw [← hcount]
      unfold SharedPtrs.release
      dsimp only
      split <;> rfl
    unfold SharedPtrs.release
    dsimp only
    rw [hcount']
    by_cases hone : h.use_count b = 1
    · rw [if_pos (by omega), if_pos hone]
      rfl
    · rw [if_neg (by omega), if_neg hone]
      rfl
  constructor
  · intro c
    rw [use_count_release, hh.count, List.count_cons]
    by_cases hbc : b = c
    · simp [hbc]
    · simp [hbc]
  · intro c hc
    have hold := hh.deleted c (by omega)
    rw [use_count_release, hdeleted]
    by_cases hbc : b = c
    · subst hbc
      rw [if_neg (by omega)] at hold
      rw [if_pos rfl]
      by_cases hone : h.use_count b = 1
      · rw [if_pos hone, if_pos (by omega), List.count_append, hold]
        simp
      · rw [if_neg hone, if_neg (by omega)]
        exact hold
    · rw [if_neg hbc, Nat.sub_zero, ← hold]
      split
      · rw [List.count_append, List.count_singleton]
        simp [hbc]
      · rfl
  · intro c hc
    rw [hlen]
    rw [hdeleted] at hc
    split at hc
    · rcases List.mem_append.mp hc with hc | hc
      · exact hh.bound c hc
      · rw [List.mem_singleton.mp hc]
        exact lt_of_use_count hpos
    · exact hh.bound c hc

end SharedPtrs

end CppGo.Lib
