import CppGo.Sync.FastChannelCalls
import CppGo.Sync.FastChannelWakeup

/-!
# The channel is a blocking FIFO

`Fifo s xs` ties the log of calls to the buffer contents `xs` and to the two
queues.  The edge tests of the code (`Size() == 1`, `Size() == capacity_ - 1`)
miss no waiter because a reader waits only on an empty buffer and a writer only
on a full one.
-/

namespace CppGo.Sync

open CppGo.Lib.Arrivals CppGo.Lib.Machine

namespace FastChannelImpl

variable {T : Type*} {ch ch' : FastChannelImpl T} {x : Option T} {xs : List (Option T)}

structure Buffers (ch : FastChannelImpl T) (xs : List (Option T)) : Prop where
  room : ch.capacity_.toNat + 1 < 2 ^ 64
  bounded : xs.length ≤ ch.capacity_.toNat
  ring : ch.useRingBuffer_ = true → ch.q_.Holds xs ∧ ch.q_.capacity_ = ch.capacity_
  list : ch.useRingBuffer_ = false → ch.lq_ = xs

/-- A push now leaves every stored element in its slot: `write_` does not wrap, or
`capacity_ + 1` divides its range. -/
def wrapSafe (ch : FastChannelImpl T) : Bool :=
  !ch.useRingBuffer_ || ch.q_.write_.toNat + 1 < 2 ^ 64 ||
    2 ^ 64 % (ch.capacity_.toNat + 1) == 0

theorem wrapSafe_of_lt (h : ch.q_.write_.toNat + 1 < 2 ^ 64) : ch.wrapSafe = true := by
  simp only [wrapSafe, h, decide_true, Bool.or_true, Bool.true_or]

namespace Buffers

theorem make {capacity : BitVec 64} {useRing : Bool} (hcap : capacity.toNat + 1 < 2 ^ 64) :
    (FastChannelImpl.make capacity useRing : FastChannelImpl T).Buffers [] where
  room := hcap
  bounded := by simp
  ring := by
    intro hring
    have hring : useRing = true := hring
    subst hring
    exact ⟨RingBuffer.holds_make hcap, rfl⟩
  list _ := rfl

theorem of_same {ch' : FastChannelImpl T} (h : ch.Buffers xs)
    (hcap : ch'.capacity_ = ch.capacity_) (hkind : ch'.useRingBuffer_ = ch.useRingBuffer_)
    (hq : ch'.q_ = ch.q_) (hlq : ch'.lq_ = ch.lq_) : ch'.Buffers xs where
  room := by rw [hcap]; exact h.room
  bounded := by rw [hcap]; exact h.bounded
  ring := by rw [hcap, hkind, hq]; exact h.ring
  list := by rw [hkind, hlq]; exact h.list

theorem setWaitq (h : ch.Buffers xs) (op : ChanOp) (q : WaitQueue1 EntryHook) :
    (ch.setWaitq op q).Buffers xs := by
  cases op <;> exact h.of_same rfl rfl rfl rfl

theorem size_toNat (h : ch.Buffers xs) : ch.size.toNat = xs.length := by
  unfold size
  split
  case isTrue hring => exact (h.ring hring).1.toNat_size
  case isFalse hring =>
    have hb := h.bounded
    have hroom := h.room
    rw [h.list (by simpa using hring), BitVec.toNat_ofNat, Nat.mod_eq_of_lt (by omega)]

theorem buffer_eq (h : ch.Buffers xs) : ch.buffer = xs := by
  unfold buffer
  split
  case isTrue hring =>
    rw [(h.ring hring).1.elements_eq, List.map_map]
    exact List.map_id'' (fun _ => rfl) xs
  case isFalse hring => exact h.list (by simpa using hring)

theorem length_of_push_none {t : Option T} (h : ch.Buffers xs) (hpush : ch.push t = none) :
    xs.length = ch.capacity_.toNat := by
  rw [push_eq_none_iff] at hpush
  unfold isFull at hpush
  split at hpush
  case isTrue hring =>
    obtain ⟨hq, hcap⟩ := h.ring hring
    rw [← hcap]
    exact hq.full_iff.mp hpush
  case isFalse hring =>
    rw [h.list (by simpa using hring)] at hpush
    have hb := h.bounded
    have : ch.capacity_.toNat ≤ xs.length := by simpa using hpush
    omega

theorem nil_of_pop_none (h : ch.Buffers xs) (hpop : ch.pop = none) : xs = [] := by
  rw [pop_eq_none_iff] at hpop
  unfold isEmpty at hpop
  split at hpop
  case isTrue hring => exact (h.ring hring).1.empty_iff.mp hpop
  case isFalse hring =>
    rw [h.list (by simpa using hring)] at hpop
    simpa using hpop

theorem push_of_lt (h : ch.Buffers xs) (t : Option T) (hlt : xs.length < ch.capacity_.toNat)
    (hsafe : ch.wrapSafe = true) :
    ∃ ch', ch.push t = some ch' ∧ ch'.Buffers (xs ++ [t]) := by
  have hlen : (xs ++ [t]).length ≤ ch.capacity_.toNat := by
    rw [List.length_append, List.length_singleton]
    omega
  by_cases hring : ch.useRingBuffer_ = true
  · obtain ⟨hq, hcap⟩ := h.ring hring
    obtain ⟨q', hpush, hq', hcap'⟩ :
        ∃ q', ch.q_.push t = some q' ∧ q'.Holds (xs ++ [t]) ∧ q'.capacity_ = ch.q_.capacity_ := by
      by_cases hwrap : ch.q_.write_.toNat + 1 < 2 ^ 64
      · obtain ⟨q', h₁, h₂, h₃, -⟩ := hq.push_of_lt t (by rw [hcap]; exact hlt) hwrap
        exact ⟨q', h₁, h₂, h₃⟩
      · have hdvd : ch.q_.capacity_.toNat + 1 ∣ 2 ^ 64 := by
          rw [hcap]
          apply Nat.dvd_of_mod_eq_zero
          simp only [wrapSafe, hring, hwrap] at hsafe
          simpa using hsafe
        have := ch.q_.write_.isLt
        exact hq.push_of_wrap t (by rw [hcap]; exact hlt) (by omega) hdvd
    refine ⟨{ ch with q_ := q', pushes := ch.pushes + 1 }, by simp [push, hring, hpush],
      h.room, hlen, fun _ => ⟨hq', hcap'.trans hcap⟩, fun hkind => ?_⟩
    simp [hring] at hkind
  · have hlist : ch.useRingBuffer_ = false := by simpa using hring
    have hlq := h.list hlist
    refine ⟨{ ch with lq_ := ch.lq_ ++ [t], pushes := ch.pushes + 1 }, ?_, h.room, hlen,
      fun hkind => absurd hkind hring, fun _ => by simp [hlq]⟩
    simp [push, hring, hlq, hlt]

theorem pop_cons (h : ch.Buffers (x :: xs)) :
    ∃ ch', ch.pop = some (x, ch') ∧ ch'.Buffers xs := by
  have hlen : xs.length ≤ ch.capacity_.toNat := by
    have := h.bounded
    simp only [List.length_cons] at this
    omega
  by_cases hring : ch.useRingBuffer_ = true
  · obtain ⟨hq, hcap⟩ := h.ring hring
    obtain ⟨q', hpop, hq', hcap', -⟩ := hq.pop_cons
    refine ⟨{ ch with q_ := q' }, by simp [pop, hring, hpop], h.room, hlen,
      fun _ => ⟨hq', hcap'.trans hcap⟩, fun hkind => ?_⟩
    simp [hring] at hkind
  · have hlist : ch.useRingBuffer_ = false := by simpa using hring
    exact ⟨{ ch with lq_ := xs }, by simp [pop, hring, h.list hlist], h.room, hlen,
      fun hkind => absurd hkind hring, fun _ => rfl⟩

theorem push_some {t : Option T} (h : ch.Buffers xs) (hsafe : ch.wrapSafe = true)
    (hpush : ch.push t = some ch') :
    ch'.Buffers (xs ++ [t]) ∧ xs.length < ch.capacity_.toNat := by
  have hlt : xs.length < ch.capacity_.toNat := by
    refine Nat.lt_of_le_of_ne h.bounded fun hfull => ?_
    have hnone : ch.push t = none := by
      rw [push_eq_none_iff]
      unfold isFull
      split
      case isTrue hring =>
        obtain ⟨hq, hcap⟩ := h.ring hring
        exact hq.full_iff.mpr (by rw [hcap, hfull])
      case isFalse hring =>
        rw [h.list (by simpa using hring)]
        simp [hfull]
    simp [hnone] at hpush
  obtain ⟨ch'', hpush', hb⟩ := h.push_of_lt t hlt hsafe
  cases hpush.symm.trans hpush'
  exact ⟨hb, hlt⟩

theorem pop_some {t : Option T} (h : ch.Buffers xs) (hpop : ch.pop = some (t, ch')) :
    ∃ tl, xs = t :: tl ∧ ch'.Buffers tl := by
  cases xs with
  | nil =>
      have hnone : ch.pop = none := by
        rw [pop_eq_none_iff]
        unfold isEmpty
        split
        case isTrue hring => exact (h.ring hring).1.empty_iff.mpr rfl
        case isFalse hring => simp [h.list (by simpa using hring)]
      simp [hnone] at hpop
  | cons x tl =>
      obtain ⟨ch'', hpop', hb⟩ := h.pop_cons
      cases hpop.symm.trans hpop'
      exact ⟨tl, rfl, hb⟩

end Buffers

end FastChannelImpl

namespace ChannelState

variable {T : Type*} {s s' : ChannelState T} {xs : List (Option T)}

/-- Nobody behind an undecided caller of the same operation has been successful. -/
def Turns (s : ChannelState T) : Prop :=
  ∀ op, InTurn (Call.pend op) (Call.ok op) s.calls

section Turns

variable {op op' : ChanOp} {task x : Nat} {ids : List Nat} {t value : Option T}
  {timeout : Int} {ret b : Bool} {entry c c' : Call T} {ch : FastChannelImpl T}

theorem filter_pend_eq_nil (h : s.waiting op = []) : s.calls.filter (Call.pend op) = [] :=
  positions_eq_nil_iff.mp h

theorem Turns.finish (h : s.Turns) (hidle : ret = true → s.waiting op = []) :
    (s.finish op task t ret).Turns := by
  intro op'
  refine (h op').concat ?_
  cases ret with
  | false => exact .inr (by simp [Call.finished, Call.ok])
  | true =>
      by_cases hop : op = op'
      · subst hop
        exact .inl (filter_pend_eq_nil (hidle rfl))
      · exact .inr (by simp [Call.finished, Call.ok, hop])

theorem Turns.waite (h : s.Turns) : (s.waite op task t timeout).Turns :=
  fun op' => (h op').concat (.inr (by simp [Call.entering, Call.ok]))

theorem Turns.set (h : s.Turns) (hx : s.calls[x]? = some c)
    (hcalls : s'.calls = s.calls.set x c') (hop : c'.op = c.op)
    (hs : c'.success_ = c.success_) : s'.Turns := by
  intro op
  rw [hcalls]
  exact (h op).set hx (by simp [Call.pend, hop, hs]) (by simp [Call.ok, hop, hs])

theorem Turns.decide (h : s.Turns) (hx : s.waiting op = x :: ids)
    (hentry : s.calls[x]? = some entry) : (s.decide ch x entry value b).Turns := by
  intro op'
  have hpend := pend_head hx hentry
  have hop : entry.op = op := by simpa using (Bool.and_eq_true_iff.mp hpend).1
  by_cases hsame : op = op' ∧ b = true
  · obtain ⟨rfl, rfl⟩ := hsame
    exact ((h op).serve hx (by simp [Call.pend]) (by simp [Call.ok, hop])
      fun _ => Call.ok_of_pend).1
  · refine (h op').set hentry (by simp [Call.pend]) fun hok => ?_
    simp only [Call.ok, hop, Bool.and_eq_true, beq_iff_eq, Option.some.injEq] at hok
    exact absurd hok hsame

theorem values_decide (h : s.Turns) (hx : s.waiting op = x :: ids)
    (hentry : s.calls[x]? = some entry) :
    (s.decide ch x entry value b).values op' =
      s.values op' ++ if op = op' ∧ b = true then [value] else [] := by
  have hpend := pend_head hx hentry
  have hop : entry.op = op := by simpa using (Bool.and_eq_true_iff.mp hpend).1
  by_cases hsame : op = op' ∧ b = true
  · obtain ⟨rfl, rfl⟩ := hsame
    have hserve := ((h op).serve hx (b := { entry with t := value, success_ := some true })
      (by simp [Call.pend]) (by simp [Call.ok, hop]) fun _ => Call.ok_of_pend).2
    simp only [values, ChannelState.decide, wakeupBySelfIo, hserve]
    simp
  · have hnot : entry.ok op' = false := by
      simp [Call.ok, Call.success_of_pend hpend]
    have hnot' : Call.ok op' { entry with t := value, success_ := some b } = false := by
      rw [← Bool.not_eq_true]
      intro hok
      simp only [Call.ok, hop, Bool.and_eq_true, beq_iff_eq, Option.some.injEq] at hok
      exact hsame hok
    simp only [values, ChannelState.decide, wakeupBySelfIo, if_neg hsame, List.append_nil,
      filter_set_of_not hentry hnot hnot']

theorem values_set (hx : s.calls[x]? = some c) (hcalls : s'.calls = s.calls.set x c')
    (hop : c'.op = c.op) (hs : c'.success_ = c.success_) (ht : c'.t = c.t) :
    s'.values op = s.values op := by
  rw [values, hcalls]
  exact map_filter_set_same hx (by simp [Call.ok, hop, hs]) ht

end Turns

structure Fifo (s : ChannelState T) (xs : List (Option T)) : Prop where
  turns : s.Turns
  buffers : s.ch.Buffers xs
  values : s.values .push = s.values .pop ++ xs
  readers : s.waiting .pop ≠ [] → xs = [] ∧ s.waiting .push = []
  writers : s.waiting .push ≠ [] → xs.length = s.ch.capacity_.toNat
  closed : s.ch.closed_ = true → ∀ op, s.waiting op = []

namespace Fifo

theorem make {capacity : BitVec 64} {useRing : Bool} (hcap : capacity.toNat + 1 < 2 ^ 64) :
    (ChannelState.make capacity useRing : ChannelState T).Fifo [] where
  turns _ := InTurn.nil
  buffers := .make hcap
  values := rfl
  readers h := absurd rfl h
  writers h := absurd rfl h
  closed h := by cases h

theorem capacity_pos (hcap : s.ch.capacity_ ≠ 0) :
    0 < s.ch.capacity_.toNat :=
  Nat.pos_of_ne_zero fun h0 => hcap (BitVec.eq_of_toNat_eq h0)

theorem nil_of_capacity (h : s.Fifo xs) (hcap : s.ch.capacity_ = 0) : xs = [] := by
  have := h.buffers.bounded
  rw [hcap] at this
  exact List.length_eq_zero_iff.mp (by simpa using this)

theorem no_readers (h : s.Fifo xs) (hw : s.waiting .push ≠ []) : s.waiting .pop = [] := by
  by_contra hr
  exact hw (h.readers hr).2

theorem fails {op : ChanOp} {task : Nat} {t : Option T} (h : s.Fifo xs) :
    (s.finish op task t false).Fifo xs where
  turns := h.turns.finish (by simp)
  buffers := h.buffers
  values := by simpa [values_finish] using h.values
  readers := by simpa [waiting_finish] using h.readers
  writers := by simpa [waiting_finish] using h.writers
  closed := by simpa [waiting_finish] using h.closed

theorem blocks {op : ChanOp} {task : Nat} {t : Option T} {timeout : Int} (h : s.Fifo xs)
    (hopen : s.ch.closed_ = false) (hread : op = .pop → xs = [] ∧ s.waiting .push = [])
    (hwrite : op = .push → xs.length = s.ch.capacity_.toNat ∧ s.waiting .pop = []) :
    (s.waite op task t timeout).Fifo xs where
  turns := h.turns.waite
  buffers := h.buffers.setWaitq _ _
  values := by simpa [values_waite] using h.values
  readers := by
    cases op with
    | pop => simpa [waiting_waite] using hread rfl
    | push => simp [waiting_waite, (hwrite rfl).2]
  writers := by
    cases op with
    | pop => simp [waiting_waite, (hread rfl).2]
    | push => simpa [waiting_waite] using (hwrite rfl).1
  closed := by simp [hopen]

theorem push_outcome {task : Nat} {v : T} {timeout : Int} (h : s.Fifo xs)
    (ho : PushOutcome s task v timeout s')
    (hsafe : s.ch.closed_ = false → s.ch.capacity_ ≠ 0 → s.ch.isFull = false →
      s.ch.wrapSafe = true) : ∃ xs', s'.Fifo xs' := by
  cases ho with
  | fails => exact ⟨xs, h.fails⟩
  | blocks hopen ht hcase =>
      refine ⟨xs, h.blocks hopen (by simp) fun _ => ?_⟩
      rcases hcase with ⟨hcap, hnone⟩ | ⟨hcap, hpush⟩
      · simp [h.nil_of_capacity hcap, hcap, hnone]
      · have hlen := h.buffers.length_of_push_none hpush
        refine ⟨hlen, ?_⟩
        by_contra hr
        have hpos := capacity_pos hcap
        rw [← hlen, (h.readers hr).1] at hpos
        simp at hpos
  | @hands x ids entry q hopen hcap hx hentry hq =>
      obtain ⟨hxs, hw⟩ := h.readers (by simp [hx])
      subst hxs
      refine ⟨[], ?_⟩
      have hwait : ∀ op, (s.decide (s.ch.setWaitq .pop q) x entry (some v) true).waiting op =
          if ChanOp.pop = op then ids else s.waiting op := fun op => waiting_decide hx hentry
      have hb : (s.ch.setWaitq .pop q).Buffers [] := h.buffers.setWaitq _ _
      refine ⟨(h.turns.decide hx hentry).finish (by simp [hwait, hw]), hb, ?_, ?_, ?_, ?_⟩
      · simp [values_finish, values_decide h.turns hx hentry, h.values]
      · simp [waiting_finish, hwait, hw]
      · simp [waiting_finish, hwait, hw]
      · simp [hopen]
  | @buffers ch hopen hcap hpush hcase =>
      have hfull : s.ch.isFull = false := by
        rw [← Bool.not_eq_true, ← FastChannelImpl.push_eq_none_iff (t := some v), hpush]
        simp
      obtain ⟨hb, hlt⟩ := h.buffers.push_some (hsafe hopen hcap hfull) hpush
      have hframe := FastChannelImpl.push_frame hpush
      have hw : s.waiting .push = [] := by
        by_contra hw
        rw [h.writers hw] at hlt
        omega
      have hr : s.waiting .pop = [] := by
        by_contra hr
        refine hr (hcase.resolve_left fun hsize => hsize ?_)
        apply BitVec.eq_of_toNat_eq
        rw [hb.size_toNat, (h.readers hr).1]
        rfl
      have hwait : ∀ op, waiting { s with ch := ch } op = [] := by
        intro op
        cases op
        · exact hw
        · exact hr
      refine ⟨xs ++ [some v], Turns.finish (s := { s with ch := ch }) h.turns (fun _ => hwait _),
        hb, ?_, ?_, ?_, ?_⟩
      · have hv : ∀ op, ChannelState.values { s with ch := ch } op = s.values op := fun _ => rfl
        simp [values_finish, hv, h.values]
      · simp [waiting_finish, hwait]
      · simp [waiting_finish, hwait]
      · simp [waiting_finish, hwait]
  | @relays ch x ids entry q hopen hcap hpush hsize hx hentry hq =>
      have hfull : s.ch.isFull = false := by
        rw [← Bool.not_eq_true, ← FastChannelImpl.push_eq_none_iff (t := some v), hpush]
        simp
      obtain ⟨hb, hlt⟩ := h.buffers.push_some (hsafe hopen hcap hfull) hpush
      obtain ⟨hxs, hw⟩ := h.readers (by simp [hx])
      subst hxs
      obtain ⟨ch', hpop, hb'⟩ := (hb.setWaitq .pop q).pop_cons
      have hframe := FastChannelImpl.pop_frame hpop
      have hfun : popToReader (ch.setWaitq .pop q) (some v) entry.t = (ch', some v, some v) := by
        simp [popToReader, hpop]
      rw [hfun]
      refine ⟨[], ?_⟩
      have hwait : ∀ op, (s.decide ch' x entry (some v) true).waiting op =
          if ChanOp.pop = op then ids else s.waiting op := fun op => waiting_decide hx hentry
      refine ⟨(h.turns.decide hx hentry).finish (by simp [hwait, hw]), hb', ?_, ?_, ?_, ?_⟩
      · simp [values_finish, values_decide h.turns hx hentry, h.values]
      · simp [waiting_finish, hwait, hw]
      · simp [waiting_finish, hwait, hw]
      · have hopen' : ch'.closed_ = false := by
          rw [hframe.closed, FastChannelImpl.setWaitq_closed,
            (FastChannelImpl.push_frame hpush).closed, hopen]
        simp [hopen']

theorem pop_outcome {task : Nat} {timeout : Int} (h : s.Fifo xs)
    (ho : PopOutcome s task timeout s')
    (hsafe : s.ch.closed_ = false → s.ch.capacity_ ≠ 0 → s.ch.size = s.ch.capacity_ →
      s.waiting .push ≠ [] → s.ch.wrapSafe = true) : ∃ xs', s'.Fifo xs' := by
  cases ho with
  | fails => exact ⟨xs, h.fails⟩
  | blocks hopen ht hcase =>
      refine ⟨xs, h.blocks hopen (fun _ => ?_) (by simp)⟩
      rcases hcase with ⟨hcap, hnone⟩ | ⟨hcap, hpop⟩
      · exact ⟨h.nil_of_capacity hcap, hnone⟩
      · have hxs := h.buffers.nil_of_pop_none hpop
        refine ⟨hxs, ?_⟩
        by_contra hw
        have hpos := capacity_pos hcap
        rw [← h.writers hw, hxs] at hpos
        simp at hpos
  | @takes x ids entry q hopen hcap hx hentry hq =>
      have hxs := h.nil_of_capacity hcap
      have hr := h.no_readers (by simp [hx])
      subst hxs
      refine ⟨[], ?_⟩
      have hwait : ∀ op, (s.decide (s.ch.setWaitq .push q) x entry entry.t true).waiting op =
          if ChanOp.push = op then ids else s.waiting op := fun op => waiting_decide hx hentry
      have hb : (s.ch.setWaitq .push q).Buffers [] := h.buffers.setWaitq _ _
      refine ⟨(h.turns.decide hx hentry).finish (by simp [hwait, hr]), hb, ?_, ?_, ?_, ?_⟩
      · simp [values_finish, values_decide h.turns hx hentry, h.values]
      · simp [waiting_finish, hwait, hr]
      · simp [waiting_finish, hwait, hcap]
      · simp [hopen]
  | @unbuffers ch t hopen hcap hpop hcase =>
      obtain ⟨tl, rfl, hb⟩ := h.buffers.pop_some hpop
      have hframe := FastChannelImpl.pop_frame hpop
      have hr : s.waiting .pop = [] := by
        by_contra hr
        simpa using (h.readers hr).1
      have hw : s.waiting .push = [] := by
        by_contra hw
        refine hw (hcase.resolve_left fun hsize => hsize ?_)
        have hlen := h.writers hw
        have hs := FastChannelImpl.size_pop hpop
        have hfull : s.ch.size = s.ch.capacity_ := by
          apply BitVec.eq_of_toNat_eq
          rw [h.buffers.size_toNat, hlen]
        rw [hfull] at hs
        rw [hframe.capacity, hs]
        exact (add_sub_cancel_right _ _).symm
      have hwait : ∀ op, waiting { s with ch := ch } op = [] := by
        intro op
        cases op
        · exact hw
        · exact hr
      refine ⟨tl, Turns.finish (s := { s with ch := ch }) h.turns (fun _ => hwait _),
        hb, ?_, ?_, ?_, ?_⟩
      · have hv : ∀ op, ChannelState.values { s with ch := ch } op = s.values op := fun _ => rfl
        simp [values_finish, hv, h.values]
      · simp [waiting_finish, hwait]
      · simp [waiting_finish, hwait]
      · simp [waiting_finish, hwait]
  | @refills ch t x ids entry q hopen hcap hpop hsize hx hentry hq =>
      obtain ⟨tl, rfl, hb⟩ := h.buffers.pop_some hpop
      have hframe := FastChannelImpl.pop_frame hpop
      have hlen : tl.length + 1 = s.ch.capacity_.toNat := by
        simpa using h.writers (by simp [hx])
      have hr := h.no_readers (by simp [hx])
      have hfull : s.ch.size = s.ch.capacity_ := by
        apply BitVec.eq_of_toNat_eq
        rw [h.buffers.size_toNat, List.length_cons, hlen]
      have hsafe' : (ch.setWaitq .push q).wrapSafe = true := by
        have hs := hsafe hopen hcap hfull (by simp [hx])
        have hwrite := (FastChannelImpl.pop_write hpop).1
        simpa [FastChannelImpl.wrapSafe, FastChannelImpl.setWaitq, hframe.capacity,
          hframe.kind, hwrite] using hs
      have hcap' : (ch.setWaitq .push q).capacity_ = s.ch.capacity_ := by
        rw [FastChannelImpl.setWaitq_capacity, hframe.capacity]
      obtain ⟨ch', hpush, hb'⟩ := (hb.setWaitq .push q).push_of_lt entry.t
        (by rw [hcap']; omega) hsafe'
      have hframe' := FastChannelImpl.push_frame hpush
      have hfun : (pushFromWriter (ch.setWaitq .push q) t entry.t).1 = ch' := by
        simp [pushFromWriter, hpush]
      rw [hfun]
      refine ⟨tl ++ [entry.t], ?_⟩
      have hwait : ∀ op, (s.decide ch' x entry entry.t true).waiting op =
          if ChanOp.push = op then ids else s.waiting op := fun op => waiting_decide hx hentry
      refine ⟨(h.turns.decide hx hentry).finish (by simp [hwait, hr]), hb', ?_, ?_, ?_, ?_⟩
      · simp [values_finish, values_decide h.turns hx hentry, h.values]
      · simp [waiting_finish, hwait, hr]
      · intro _
        rw [finish_ch, decide_ch, hframe'.capacity, hcap', List.length_append,
          List.length_singleton, hlen]
      · have hopen' : ch'.closed_ = false := by
          rw [hframe'.closed, FastChannelImpl.setWaitq_closed, hframe.closed, hopen]
        simp [hopen']

theorem close (h : s.Fifo xs) (hlink : s.Linked) :
    (notifyAll { s with ch := { s.ch with closed_ := true } }).Fifo xs := by
  have hrule := notifyAll_rule
    (P := fun u => u.Turns ∧ u.ch.Buffers xs ∧ u.values .push = u.values .pop ++ xs)
    (linked_close hlink)
    ⟨h.turns, h.buffers.of_same rfl rfl rfl rfl, h.values⟩ ?_
  · obtain ⟨-, ⟨hturns, hb, hv⟩, hempty⟩ := hrule
    exact ⟨hturns, hb, hv, by simp [hempty], by simp [hempty], fun _ => hempty⟩
  · intro op u x ids entry q _ hu hx hentry _ _
    refine ⟨hu.1.decide hx hentry, hu.2.1.setWaitq _ _, ?_⟩
    simp [values_decide hu.1 hx hentry, hu.2.2]

theorem set {x : Nat} {c c' : Call T} (h : s.Fifo xs) (hx : s.calls[x]? = some c)
    (hcalls : s'.calls = s.calls.set x c') (hch : s'.ch = s.ch) (hop : c'.op = c.op)
    (hs : c'.success_ = c.success_) (ht : c'.t = c.t) : s'.Fifo xs where
  turns := h.turns.set hx hcalls hop hs
  buffers := by rw [hch]; exact h.buffers
  values := by
    rw [values_set hx hcalls hop hs ht, values_set hx hcalls hop hs ht]
    exact h.values
  readers := by
    rw [waiting_set hx hcalls hop hs, waiting_set hx hcalls hop hs]
    exact h.readers
  writers := by
    rw [waiting_set hx hcalls hop hs, hch]
    exact h.writers
  closed := by
    rw [hch]
    intro hclosed op
    rw [waiting_set hx hcalls hop hs]
    exact h.closed hclosed op

end Fifo

def fills (s : ChannelState T) : ChanEvent T → Bool
  | .push _ _ _ => !s.ch.closed_ && s.ch.capacity_ != 0 && !s.ch.isFull
  | .pop _ _ => !s.ch.closed_ && s.ch.capacity_ != 0 && s.ch.size == s.ch.capacity_ &&
      !(s.waiting .push).isEmpty
  | _ => false

theorem Fifo.outcome {a : ChanEvent T} (h : s.Fifo xs) (hlink : s.Linked)
    (ho : StepOutcome s a s') (hsafe : s.fills a = true → s.ch.wrapSafe = true) :
    ∃ xs', s'.Fifo xs' := by
  cases ho with
  | push _ ho =>
      refine h.push_outcome ho fun hopen hcap hfull => hsafe ?_
      have hcap' : (s.ch.capacity_ != 0) = true := bne_iff_ne.mpr hcap
      simp only [fills, hopen, hcap', hfull, Bool.not_false, Bool.and_true]
  | pop _ ho =>
      refine h.pop_outcome ho fun hopen hcap hsize hw => hsafe ?_
      have hcap' : (s.ch.capacity_ != 0) = true := bne_iff_ne.mpr hcap
      simpa only [fills, hopen, hcap', hsize, beq_self_eq_true, Bool.not_false, Bool.and_true,
        Bool.true_and, Bool.not_eq_true', List.isEmpty_eq_false_iff] using hw
  | closed => exact ⟨xs, h⟩
  | close => exact ⟨xs, h.close hlink⟩
  | fire hc hfire =>
      obtain ⟨-, rfl⟩ := fire_eq hfire
      exact ⟨xs, h.set hc rfl rfl rfl rfl rfl⟩
  | fireWake hc => exact ⟨xs, h.set hc rfl rfl rfl rfl rfl⟩
  | resume hc =>
      have hkeeps := resumed_keeps (T := T)
      exact ⟨xs, h.set hc rfl rfl (hkeeps _ _).1 (hkeeps _ _).2.1 (hkeeps _ _).2.2⟩
  | stopTimer hc => exact ⟨xs, h.set hc rfl rfl rfl rfl rfl⟩

end ChannelState

end CppGo.Sync
