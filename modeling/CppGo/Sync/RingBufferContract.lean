import CppGo.Sync.RingBuffer

/-!
# When a `RingBuffer` is a bounded FIFO

While `write_` does not wrap a `RingBuffer` is a FIFO of `capacity_` elements.  At the
wrap both counters are re-based by `capacity_ + 1`; this keeps the slots exactly if
`capacity_ + 1` divides the range of the counters.
-/

namespace CppGo.Sync.RingBuffer

variable {w : Nat} {T : Type*}

inductive Call (T : Type*)
  | push (arg : T)
  | pop

/-- What a call returns, what `pop` moves out of its slot, and `size()` afterwards. -/
structure Outcome (T : Type*) where
  ret : Bool
  moved : Option (Option T)
  size : Nat

def outcomes {σ : Type*} (call : σ → Call T → Outcome T × σ) : σ → List (Call T) → List (Outcome T)
  | _, [] => []
  | s, c :: calls => (call s c).1 :: outcomes call (call s c).2 calls

def call (r : RingBuffer w T) : Call T → Outcome T × RingBuffer w T
  | .push arg =>
      match r.push arg with
      | none => (⟨false, none, r.size.toNat⟩, r)
      | some r' => (⟨true, none, r'.size.toNat⟩, r')
  | .pop =>
      match r.pop with
      | none => (⟨false, none, r.size.toNat⟩, r)
      | some (v, r') => (⟨true, some v, r'.size.toNat⟩, r')

def fifo (capacity : Nat) (xs : List T) : Call T → Outcome T × List T
  | .push arg =>
      if xs.length < capacity then (⟨true, none, xs.length + 1⟩, xs ++ [arg])
      else (⟨false, none, xs.length⟩, xs)
  | .pop =>
      match xs with
      | [] => (⟨false, none, 0⟩, [])
      | x :: xs => (⟨true, some (some x), xs.length⟩, xs)

/-- Whatever is called, the buffer shows what an empty FIFO of its capacity shows. -/
def IsFifo (r : RingBuffer w T) : Prop :=
  ∀ calls : List (Call T), outcomes call r calls = outcomes (fifo r.capacity_.toNat) [] calls

/-- Two objects that show the same at every call show the same in every run. -/
theorem outcomes_eq {σ τ : Type*} {f : σ → Call T → Outcome T × σ}
    {g : τ → Call T → Outcome T × τ} {R : σ → τ → Prop}
    (hstep : ∀ s t c, R s t → (f s c).1 = (g t c).1 ∧ R (f s c).2 (g t c).2)
    {s : σ} {t : τ} (h : R s t) (calls : List (Call T)) :
    outcomes f s calls = outcomes g t calls := by
  induction calls generalizing s t with
  | nil => rfl
  | cons c calls ih =>
      have hc := hstep s t c h
      rw [outcomes, outcomes, hc.1, ih hc.2]

/-! ## Divisible capacities -/

variable {r : RingBuffer w T} {xs : List T} {cap : BitVec w}

/-- Where `capacity_ + 1` divides the range of the counters `push` appends also when
`write_` wraps. -/
theorem Holds.push (h : r.Holds xs) (v : T) (hlt : xs.length < r.capacity_.toNat)
    (hdvd : r.capacity_.toNat + 1 ∣ 2 ^ w) :
    ∃ r', r.push v = some r' ∧ r'.Holds (xs ++ [v]) ∧ r'.capacity_ = r.capacity_ := by
  have hw := r.write_.isLt
  by_cases hwrap : r.write_.toNat + 1 < 2 ^ w
  · obtain ⟨r', hpush, hholds, hcap, -⟩ := h.push_of_lt v hlt hwrap
    exact ⟨r', hpush, hholds, hcap⟩
  · exact h.push_of_wrap v hlt (by omega) hdvd

theorem call_step (hdvd : cap.toNat + 1 ∣ 2 ^ w) (c : Call T)
    (h : r.Holds xs ∧ r.capacity_ = cap) :
    (r.call c).1 = (fifo cap.toNat xs c).1 ∧
      (r.call c).2.Holds (fifo cap.toNat xs c).2 ∧ (r.call c).2.capacity_ = cap := by
  obtain ⟨h, rfl⟩ := h
  cases c with
  | push v =>
      by_cases hlt : xs.length < r.capacity_.toNat
      · obtain ⟨r', hpush, hholds, hcap⟩ := h.push v hlt hdvd
        have hsize : r'.size.toNat = xs.length + 1 := by rw [hholds.toNat_size]; simp
        simp only [call, hpush, fifo, if_pos hlt, hsize, true_and]
        exact ⟨hholds, hcap⟩
      · have hfull : xs.length = r.capacity_.toNat := by have := h.bounded; omega
        simp only [call, h.push_of_full v hfull, fifo, if_neg hlt, h.toNat_size, true_and]
        exact ⟨h, trivial⟩
  | pop =>
      cases xs with
      | nil =>
          have hsize : r.size.toNat = 0 := h.toNat_size
          simp only [call, h.pop_nil, fifo, hsize, true_and]
          exact ⟨h, trivial⟩
      | cons x xs =>
          obtain ⟨r', hpop, hholds, hcap, -⟩ := h.pop_cons
          simp only [call, hpop, fifo, hholds.toNat_size, true_and]
          exact ⟨hholds, hcap⟩

theorem isFifo_of_dvd (hcap : cap.toNat + 1 < 2 ^ w) (hdvd : cap.toNat + 1 ∣ 2 ^ w) :
    (make cap : RingBuffer w T).IsFifo :=
  outcomes_eq (R := fun r xs => r.Holds xs ∧ r.capacity_ = cap)
    (fun _ _ c h => call_step hdvd c h) ⟨holds_make hcap, rfl⟩

/-! ## The other capacities

A buffer that is filled and emptied again and again comes to the wrap without elements. -/

def drained (cap : BitVec w) (k : Nat) : RingBuffer w T :=
  { buf_ := fun _ => none
    capacity_ := cap
    write_ := BitVec.ofNat w k
    read_ := BitVec.ofNat w k }

def filled (cap : BitVec w) (k : Nat) (v : T) (write read : BitVec w) : RingBuffer w T :=
  { buf_ := Function.update (fun _ => none) (k % (cap.toNat + 1)) (some v)
    capacity_ := cap
    write_ := write
    read_ := read }

theorem ofNat_succ (k : Nat) : BitVec.ofNat w k + 1 = BitVec.ofNat w (k + 1) := by
  apply BitVec.eq_of_toNat_eq
  simp [BitVec.toNat_add]

/-- A successful `push` on a drained buffer, before the counters are compared. -/
theorem drained_push (hpos : 1 ≤ cap.toNat) (hcap : cap.toNat + 1 < 2 ^ w) {k : Nat}
    (hk : k < 2 ^ w) (v : T) :
    (drained cap k).push v = some
      (if BitVec.ofNat w (k + 1) = 0 then
        filled cap k v (cap + 1) (BitVec.ofNat w k + (cap + 1))
      else filled cap k v (BitVec.ofNat w (k + 1)) (BitVec.ofNat w k)) := by
  have hfull : (drained cap k : RingBuffer w T).full = false := by
    rw [full, size, drained, sub_self, Bool.eq_false_iff, ne_eq, beq_iff_eq, ← BitVec.toNat_inj]
    simp
    omega
  have hslot : (drained cap k : RingBuffer w T).pwrite = k % (cap.toNat + 1) := by
    rw [pwrite, BitVec.toNat_umod]
    simp only [drained]
    rw [toNat_succ hcap, BitVec.toNat_ofNat, Nat.mod_eq_of_lt hk]
  rw [push, if_neg (by simp [hfull]), hslot]
  simp only [drained, ofNat_succ]
  split_ifs
  · rfl
  · rfl

theorem filled_pop (hcap : cap.toNat + 1 < 2 ^ w) {k : Nat} (v : T) {write read : BitVec w}
    (hsize : write = read + 1) :
    (filled cap k v write read).pop = some
      (if read.toNat % (cap.toNat + 1) = k % (cap.toNat + 1) then some v else none,
        { buf_ := Function.update (filled cap k v write read).buf_
            (read.toNat % (cap.toNat + 1)) none
          capacity_ := cap
          write_ := write
          read_ := read + 1 }) := by
  have hempty : (filled cap k v write read).empty = false := by
    rw [empty, size, filled, hsize, add_sub_cancel_left, Bool.eq_false_iff, ne_eq, beq_iff_eq,
      ← BitVec.toNat_inj]
    have hw : 1 < 2 ^ w := by omega
    simp [Nat.mod_eq_of_lt hw]
  have hslot : (filled cap k v write read).pread = read.toNat % (cap.toNat + 1) := by
    rw [pread, BitVec.toNat_umod, filled, toNat_succ hcap]
  rw [pop, if_neg (by simp [hempty]), hslot]
  congr 2
  simp [filled, Function.update_apply]

theorem ofNat_eq_zero_iff {k : Nat} (hk : k < 2 ^ w) :
    BitVec.ofNat w (k + 1) = 0 ↔ k + 1 = 2 ^ w := by
  rw [← BitVec.toNat_inj, BitVec.toNat_ofNat]
  simp only [BitVec.ofNat_eq_ofNat, BitVec.toNat_ofNat, Nat.zero_mod]
  constructor
  · intro h
    have := Nat.le_of_dvd (Nat.succ_pos k) (Nat.dvd_of_mod_eq_zero h)
    omega
  · intro h
    rw [h, Nat.mod_self]

/-- Away from the wrap a `push` and a `pop` only move the counters. -/
theorem drained_cycle (hpos : 1 ≤ cap.toNat) (hcap : cap.toNat + 1 < 2 ^ w) {k : Nat}
    (hk : k + 1 < 2 ^ w) (v : T) :
    ((drained cap k).call (.push v)).2.call .pop = (⟨true, some (some v), 0⟩, drained cap (k + 1)) := by
  have hne : BitVec.ofNat w (k + 1) ≠ 0 := by
    rw [ne_eq, ofNat_eq_zero_iff (by omega)]
    omega
  have hpush := drained_push hpos hcap (k := k) (by omega) v
  rw [if_neg hne] at hpush
  have hpop := filled_pop hcap v (k := k) (ofNat_succ k).symm
  have hslot : (BitVec.ofNat w k).toNat = k := by
    rw [BitVec.toNat_ofNat, Nat.mod_eq_of_lt (by omega)]
  rw [hslot, if_pos rfl] at hpop
  simp only [call, hpush, hpop]
  rw [Prod.mk.injEq]
  constructor
  · simp [size]
  · simp only [filled, drained, Function.update_idem, ofNat_succ]
    simp

/-- At the wrap `pop` looks for the element in the last slot. -/
theorem drained_wrap (hpos : 1 ≤ cap.toNat) (hcap : cap.toNat + 1 < 2 ^ w) {k : Nat}
    (hk : k + 1 = 2 ^ w) (v : T) :
    (((drained cap k).call (.push v)).2.call .pop).1.moved =
      some (if cap.toNat = k % (cap.toNat + 1) then some v else none) := by
  have hpush := drained_push hpos hcap (k := k) (by omega) v
  rw [if_pos ((ofNat_eq_zero_iff (by omega)).mpr hk)] at hpush
  have hread : BitVec.ofNat w k + (cap + 1) = cap := by
    have := (ofNat_eq_zero_iff (w := w) (k := k) (by omega)).mpr hk
    rw [add_comm cap, ← add_assoc, ofNat_succ, this, zero_add]
  rw [hread] at hpush
  have hpop := filled_pop hcap v (k := k) (Eq.refl (cap + 1))
  rw [Nat.mod_eq_of_lt (Nat.lt_succ_self cap.toNat)] at hpop
  simp only [call, hpush, hpop]

theorem fifo_push_nil {capacity : Nat} (hpos : 1 ≤ capacity) (v : T) :
    fifo capacity [] (.push v) = (⟨true, none, 1⟩, [v]) :=
  if_pos hpos

def oneByOne (v : T) : Nat → List (Call T)
  | 0 => []
  | k + 1 => .push v :: .pop :: oneByOne v k

/-- The element that is stored at the wrap is not found. -/
theorem outcomes_oneByOne_ne (hpos : 1 ≤ cap.toNat) (hcap : cap.toNat + 1 < 2 ^ w)
    (hdvd : ¬ cap.toNat + 1 ∣ 2 ^ w) (v : T) (j k : Nat) (hk : k + (j + 1) = 2 ^ w) :
    outcomes call (drained cap k) (oneByOne v (j + 1)) ≠
      outcomes (fifo cap.toNat) [] (oneByOne v (j + 1)) := by
  induction j generalizing k with
  | zero =>
      intro hrun
      have hmoved := congrArg (fun os => os[1]?.map Outcome.moved) hrun
      simp only [oneByOne, outcomes, List.getElem?_cons_succ, List.getElem?_cons_zero,
        Option.map_some, drained_wrap hpos hcap hk v, fifo_push_nil hpos] at hmoved
      have hslot : cap.toNat ≠ k % (cap.toNat + 1) := by
        intro hslot
        apply hdvd
        have hdiv := Nat.div_add_mod k (cap.toNat + 1)
        exact ⟨k / (cap.toNat + 1) + 1, by rw [Nat.mul_add]; omega⟩
      rw [if_neg hslot] at hmoved
      simp [fifo] at hmoved
  | succ j ih =>
      intro hrun
      apply ih (k + 1) (by omega)
      rw [oneByOne, outcomes, outcomes, drained_cycle hpos hcap (by omega) v, outcomes, outcomes,
        fifo_push_nil hpos] at hrun
      exact (List.cons.inj (List.cons.inj hrun).2).2

theorem dvd_of_isFifo (hpos : 1 ≤ cap.toNat) (hcap : cap.toNat + 1 < 2 ^ w) (v : T)
    (h : (make cap : RingBuffer w T).IsFifo) : cap.toNat + 1 ∣ 2 ^ w := by
  by_contra hdvd
  exact outcomes_oneByOne_ne hpos hcap hdvd v (2 ^ w - 1) 0 (by omega) (h _)

/-- A `RingBuffer` is a bounded FIFO exactly if `capacity_ + 1` divides the range of its
counters. -/
theorem isFifo_iff [Nonempty T] (hpos : 1 ≤ cap.toNat) (hcap : cap.toNat + 1 < 2 ^ w) :
    (make cap : RingBuffer w T).IsFifo ↔ cap.toNat + 1 ∣ 2 ^ w := by
  obtain ⟨v⟩ := ‹Nonempty T›
  constructor
  · exact dvd_of_isFifo hpos hcap v
  · exact isFifo_of_dvd hcap

theorem isFifo_iff_three :
    (make 3#64 : RingBuffer 64 Nat).IsFifo ∧ ¬ (make 6#64 : RingBuffer 64 Nat).IsFifo := by
  rw [isFifo_iff (by decide) (by decide), isFifo_iff (by decide) (by decide)]
  decide

/-- With `size_t` counters a buffer of two elements fails at its element `2 ^ 64`. -/
theorem wrapped_pop_two :
    outcomes call (make 2#64) (oneByOne 7 (2 ^ 64)) ≠
      outcomes (fifo 2) [] (oneByOne 7 (2 ^ 64)) :=
  have hpos : 1 ≤ (2#64).toNat := by decide
  outcomes_oneByOne_ne hpos (by decide) (by decide) 7 (2 ^ 64 - 1) 0 rfl

end CppGo.Sync.RingBuffer
