import Mathlib.Data.BitVec
import Mathlib.Data.Nat.ModEq
import Mathlib.Logic.Function.Basic
import Mathlib.Tactic.Abel
import Mathlib.Tactic.Common

/-!
# `RingBuffer<T>`

`sync/ringbuffer.h` keeps `capacity_ + 1` raw slots and two free-running
counters of type `size_t`; slot numbers are the counters modulo
`capacity_ + 1`.  The word width `w` of the counters is a parameter, so that
the wrap of `write_` can be studied at any width; the library runs it at 64.

A slot is `none` while no element is constructed in it, so a read of raw memory
is visible in the model as a popped `none`.
-/

namespace CppGo.Sync

structure RingBuffer (w : Nat) (T : Type*) where
  buf_ : Nat → Option T
  capacity_ : BitVec w
  write_ : BitVec w
  read_ : BitVec w

namespace RingBuffer

variable {w : Nat} {T : Type*}

def make (cap : BitVec w) : RingBuffer w T :=
  { buf_ := fun _ => none, capacity_ := cap, write_ := 0, read_ := 0 }

def size (r : RingBuffer w T) : BitVec w := r.write_ - r.read_

def empty (r : RingBuffer w T) : Bool := r.size == 0

def full (r : RingBuffer w T) : Bool := r.size == r.capacity_

def pwrite (r : RingBuffer w T) : Nat := (r.write_ % (r.capacity_ + 1)).toNat

def pread (r : RingBuffer w T) : Nat := (r.read_ % (r.capacity_ + 1)).toNat

/-- `push` returns `none` for `false`. -/
def push (r : RingBuffer w T) (arg : T) : Option (RingBuffer w T) :=
  if r.full then none
  else
    let buf := Function.update r.buf_ r.pwrite (some arg)
    let write := r.write_ + 1
    if write = 0 then
      -- the counters are re-based when `++write_` wraps
      some { r with
        buf_ := buf
        write_ := r.capacity_ + 1
        read_ := r.read_ + (r.capacity_ + 1) }
    else some { r with buf_ := buf, write_ := write }

/-- `pop` returns `none` for `false`, else what it moved out of the slot. -/
def pop (r : RingBuffer w T) : Option (Option T × RingBuffer w T) :=
  if r.empty then none
  else
    some (r.buf_ r.pread,
      { r with
        buf_ := Function.update r.buf_ r.pread none
        read_ := r.read_ + 1 })

theorem toNat_succ {x : BitVec w} (h : x.toNat + 1 < 2 ^ w) :
    (x + 1).toNat = x.toNat + 1 := by
  have hw : 1 < 2 ^ w := by omega
  have hone : (1 : BitVec w).toNat = 1 := by
    rw [BitVec.ofNat_eq_ofNat, BitVec.toNat_ofNat, Nat.mod_eq_of_lt hw]
  rw [BitVec.toNat_add, hone, Nat.mod_eq_of_lt h]

theorem size_push {r r' : RingBuffer w T} {v : T} (h : r.push v = some r') :
    r'.size = r.size + 1 := by
  simp only [push] at h
  split_ifs at h with hfull hwrap
  · cases h
    simp only [size]
    rw [sub_add_eq_add_sub, hwrap]
    abel
  · cases h
    simp only [size]
    abel

theorem size_pop {r r' : RingBuffer w T} {v : Option T} (h : r.pop = some (v, r')) :
    r.size = r'.size + 1 := by
  unfold pop at h
  split_ifs at h
  cases h
  simp only [size]
  abel

theorem push_write_le {r r' : RingBuffer w T} {v : T} (h : r.push v = some r')
    (hwrap : r.write_.toNat + 1 < 2 ^ w) : r'.write_.toNat ≤ r.write_.toNat + 1 := by
  simp only [push] at h
  split_ifs at h with hfull hzero
  · have := toNat_succ hwrap
    rw [hzero] at this
    simp at this
  · cases h
    exact (toNat_succ hwrap).le

theorem pop_write {r r' : RingBuffer w T} {v : Option T} (h : r.pop = some (v, r')) :
    r'.write_ = r.write_ := by
  unfold pop at h
  split_ifs at h
  cases h
  rfl

def elements (r : RingBuffer w T) : List (Option T) :=
  (List.range r.size.toNat).map fun i =>
    r.buf_ ((r.read_.toNat + i) % (r.capacity_.toNat + 1))

/-- The buffer `r` holds the elements `xs`,
oldest first. -/
structure Holds (r : RingBuffer w T) (xs : List T) : Prop where
  room : r.capacity_.toNat + 1 < 2 ^ w
  counters : r.read_.toNat + xs.length = r.write_.toNat
  bounded : xs.length ≤ r.capacity_.toNat
  slots : ∀ i < xs.length,
    r.buf_ ((r.read_.toNat + i) % (r.capacity_.toNat + 1)) = xs[i]?

theorem holds_make {cap : BitVec w} (hcap : cap.toNat + 1 < 2 ^ w) :
    (make cap : RingBuffer w T).Holds [] where
  room := hcap
  counters := by simp [make]
  bounded := by simp
  slots := by simp

theorem slot_ne {n a i j : Nat} (hij : i < j) (hj : j < n + i) :
    (a + i) % n ≠ (a + j) % n := by
  intro h
  have hmod : i ≡ j [MOD n] := Nat.ModEq.add_left_cancel' a h
  have hdvd : n ∣ j - i := (Nat.modEq_iff_dvd' hij.le).mp hmod
  have := Nat.le_of_dvd (by omega) hdvd
  omega

namespace Holds

variable {r : RingBuffer w T} {xs : List T}

theorem toNat_size (h : r.Holds xs) : r.size.toNat = xs.length := by
  have hw := r.write_.isLt
  have hc := h.counters
  rw [size, BitVec.toNat_sub_of_le (by rw [BitVec.le_def]; omega)]
  omega

theorem elements_eq (h : r.Holds xs) : r.elements = xs.map some := by
  refine List.ext_getElem (by simp [elements, h.toNat_size]) fun i hi _ => ?_
  have hlt : i < xs.length := by simpa [elements, h.toNat_size] using hi
  simp [elements, h.slots i hlt, hlt]

theorem toNat_capacity_succ (h : r.Holds xs) :
    (r.capacity_ + 1).toNat = r.capacity_.toNat + 1 :=
  toNat_succ h.room

theorem pwrite_eq (h : r.Holds xs) :
    r.pwrite = (r.read_.toNat + xs.length) % (r.capacity_.toNat + 1) := by
  rw [pwrite, BitVec.toNat_umod, h.toNat_capacity_succ, h.counters]

theorem pread_eq (h : r.Holds xs) :
    r.pread = r.read_.toNat % (r.capacity_.toNat + 1) := by
  rw [pread, BitVec.toNat_umod, h.toNat_capacity_succ]

theorem full_iff (h : r.Holds xs) : r.full = true ↔ xs.length = r.capacity_.toNat := by
  rw [full, beq_iff_eq, ← BitVec.toNat_inj, h.toNat_size]

theorem empty_iff (h : r.Holds xs) : r.empty = true ↔ xs = [] := by
  rw [empty, beq_iff_eq, ← BitVec.toNat_inj, h.toNat_size]
  simp

theorem full_eq_false (h : r.Holds xs) (hlt : xs.length < r.capacity_.toNat) :
    r.full = false := by
  rw [Bool.eq_false_iff, ne_eq, h.full_iff]
  omega

/-- While there is room `push` appends, as long as `write_` does not wrap. -/
theorem push_of_lt (h : r.Holds xs) (v : T) (hlt : xs.length < r.capacity_.toNat)
    (hwrap : r.write_.toNat + 1 < 2 ^ w) :
    ∃ r', r.push v = some r' ∧ r'.Holds (xs ++ [v]) ∧
      r'.capacity_ = r.capacity_ ∧ r'.write_.toNat = r.write_.toNat + 1 := by
  have hwrite : (r.write_ + 1).toNat = r.write_.toNat + 1 := toNat_succ hwrap
  have hne : r.write_ + 1 ≠ 0 := by
    intro h0
    rw [h0] at hwrite
    simp at hwrite
  refine ⟨{ r with buf_ := Function.update r.buf_ r.pwrite (some v), write_ := r.write_ + 1 },
    ?_, ?_, rfl, hwrite⟩
  · rw [push, if_neg (by simp [h.full_eq_false hlt]), if_neg hne]
  · refine ⟨h.room, ?_, ?_, ?_⟩
    · have := h.counters
      simp only [hwrite, List.length_append, List.length_singleton]
      omega
    · simp only [List.length_append, List.length_singleton]
      omega
    · intro i hi
      simp only [List.length_append, List.length_singleton] at hi
      simp only [h.pwrite_eq]
      by_cases hlast : i = xs.length
      · subst hlast
        simp
      · have hold : i < xs.length := by omega
        rw [Function.update_of_ne (slot_ne hold (by omega)), h.slots i hold,
          List.getElem?_append_left hold]

/-- When `write_` wraps the counters are re-based by `capacity_ + 1`, which
renames no slot if `capacity_ + 1` divides the range of the counters. -/
theorem push_of_wrap (h : r.Holds xs) (v : T) (hlt : xs.length < r.capacity_.toNat)
    (hwrap : r.write_.toNat + 1 = 2 ^ w) (hdvd : r.capacity_.toNat + 1 ∣ 2 ^ w) :
    ∃ r', r.push v = some r' ∧ r'.Holds (xs ++ [v]) ∧ r'.capacity_ = r.capacity_ := by
  have hzero : r.write_ + 1 = 0 := by
    have hw : 1 < 2 ^ w := by have := h.room; omega
    apply BitVec.eq_of_toNat_eq
    have hone : (1 : BitVec w).toNat = 1 := by
      rw [BitVec.ofNat_eq_ofNat, BitVec.toNat_ofNat, Nat.mod_eq_of_lt hw]
    rw [BitVec.toNat_add, hone, hwrap]
    simp
  have hcount := h.counters
  have hread : (r.read_ + (r.capacity_ + 1)).toNat =
      r.read_.toNat + (r.capacity_.toNat + 1) - 2 ^ w := by
    have hlt' := r.read_.isLt
    have hroom := h.room
    rw [BitVec.toNat_add, h.toNat_capacity_succ, Nat.mod_eq_sub_mod (by omega),
      Nat.mod_eq_of_lt (by omega)]
  have hslot : ∀ i, (r.read_.toNat + (r.capacity_.toNat + 1) - 2 ^ w + i) %
      (r.capacity_.toNat + 1) = (r.read_.toNat + i) % (r.capacity_.toNat + 1) := by
    intro i
    obtain ⟨k, hk⟩ := hdvd
    have hshift : r.read_.toNat + i + (r.capacity_.toNat + 1) =
        (r.read_.toNat + (r.capacity_.toNat + 1) - 2 ^ w + i) +
          (r.capacity_.toNat + 1) * k := by omega
    rw [← Nat.add_mod_right (r.read_.toNat + i), hshift, Nat.add_mul_mod_self_left]
  refine ⟨{ r with
      buf_ := Function.update r.buf_ r.pwrite (some v)
      write_ := r.capacity_ + 1
      read_ := r.read_ + (r.capacity_ + 1) }, ?_, ?_, rfl⟩
  · rw [push, if_neg (by simp [h.full_eq_false hlt]), if_pos hzero]
  · refine ⟨h.room, ?_, ?_, ?_⟩
    · simp only [hread, h.toNat_capacity_succ, List.length_append, List.length_singleton]
      omega
    · simp only [List.length_append, List.length_singleton]
      omega
    · intro i hi
      simp only [List.length_append, List.length_singleton] at hi
      simp only [hread, hslot, h.pwrite_eq]
      by_cases hlast : i = xs.length
      · subst hlast
        simp
      · have hold : i < xs.length := by omega
        rw [Function.update_of_ne (slot_ne hold (by omega)), h.slots i hold,
          List.getElem?_append_left hold]

theorem push_of_full (h : r.Holds xs) (v : T) (hfull : xs.length = r.capacity_.toNat) :
    r.push v = none := by
  simp [push, h.full_iff.mpr hfull]

theorem pop_cons {x : T} (h : r.Holds (x :: xs)) :
    ∃ r', r.pop = some (some x, r') ∧ r'.Holds xs ∧
      r'.capacity_ = r.capacity_ ∧ r'.write_ = r.write_ := by
  have hempty : r.empty = false := by
    rw [Bool.eq_false_iff, ne_eq, h.empty_iff]
    simp
  have hc : r.read_.toNat + (xs.length + 1) = r.write_.toNat := by simpa using h.counters
  have hb : xs.length + 1 ≤ r.capacity_.toNat := by simpa using h.bounded
  have hwlt := r.write_.isLt
  have hread : (r.read_ + 1).toNat = r.read_.toNat + 1 := toNat_succ (by omega)
  have hslot : r.buf_ r.pread = some x := by
    have := h.slots 0 (by simp)
    simpa [h.pread_eq] using this
  refine ⟨{ r with buf_ := Function.update r.buf_ r.pread none, read_ := r.read_ + 1 },
    by simp [pop, hempty, hslot], ?_, rfl, rfl⟩
  refine ⟨h.room, ?_, Nat.le_of_succ_le hb, ?_⟩
  · show (r.read_ + 1).toNat + _ = r.write_.toNat
    omega
  · intro i hi
    have hne : (r.read_.toNat + 0) % (r.capacity_.toNat + 1) ≠
        (r.read_.toNat + (i + 1)) % (r.capacity_.toNat + 1) := slot_ne (by omega) (by omega)
    have hi' := h.slots (i + 1) (by simpa using hi)
    show Function.update r.buf_ r.pread none (((r.read_ + 1).toNat + i) % _) = _
    rw [hread, h.pread_eq, show r.read_.toNat + 1 + i = r.read_.toNat + (i + 1) by omega,
      Function.update_of_ne (by simpa using hne.symm), hi']
    simp

theorem pop_nil (h : r.Holds []) : r.pop = none := by
  simp [pop, h.empty_iff.mpr rfl]

end Holds

end RingBuffer

end CppGo.Sync
