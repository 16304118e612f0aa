import CppGo.Sync.FastChannel

/-!
# The critical sections of the channel

What each section of `FastChannelImpl` can do, once and for all: the queues hold
the undecided calls in order of arrival in every run, and `Push`, `Pop` and
`Close` are one of a few combinations of a buffer access, a decided entry, and a
call that returns or blocks.
-/

namespace CppGo.Sync

open CppGo.Lib.Arrivals

structure Queued (q : WaitQueue1 EntryHook) (ids : List Nat) : Prop where
  dummy : q.head_ = none
  entries : q.Represents (ids.map some)

namespace Queued

variable {q : WaitQueue1 EntryHook} {x : Nat} {ids : List Nat}

theorem push (h : Queued q ids) (hx : x ∉ ids) : Queued (q.push (some x)) (ids ++ [x]) where
  dummy := h.dummy
  entries := by
    have := h.entries.push (e := some x) (by simpa [h.dummy] using hx)
    simpa using this

theorem pop_nil (h : Queued q []) : q.pop = none := h.entries.pop_nil

theorem pop_cons (h : Queued q (x :: ids)) :
    ∃ q', q.pop = some (some x, q') ∧ Queued q' ids := by
  obtain ⟨q', hpop, hhead, hq⟩ := h.entries.pop_cons
  exact ⟨q', hpop, hhead.trans h.dummy, hq⟩

theorem toList_eq (h : Queued q ids) : q.toList = ids.map some := h.entries.toList_eq

theorem count_eq (h : Queued q ids) : q.count_ = ids.length := by
  simpa using h.entries.count

end Queued

namespace FastChannelImpl

variable {T : Type*} {ch ch' : FastChannelImpl T} {op op' : ChanOp}

@[simp] theorem waitq_setWaitq (q : WaitQueue1 EntryHook) :
    (ch.setWaitq op q).waitq op' = if op = op' then q else ch.waitq op' := by
  cases op <;> cases op' <;> rfl

structure SameFrame (ch ch' : FastChannelImpl T) : Prop where
  waitq : ∀ op, ch'.waitq op = ch.waitq op
  closed : ch'.closed_ = ch.closed_
  capacity : ch'.capacity_ = ch.capacity_
  kind : ch'.useRingBuffer_ = ch.useRingBuffer_

theorem SameFrame.rfl : SameFrame ch ch where
  waitq _ := Eq.refl _
  closed := Eq.refl _
  capacity := Eq.refl _
  kind := Eq.refl _

theorem push_frame {t : Option T} (h : ch.push t = some ch') : SameFrame ch ch' := by
  unfold push at h
  split at h
  · obtain ⟨q, -, rfl⟩ := Option.map_eq_some_iff.mp h
    exact ⟨fun op => by cases op <;> rfl, rfl, rfl, rfl⟩
  · split at h
    · cases h
    · cases h
      exact ⟨fun op => by cases op <;> rfl, rfl, rfl, rfl⟩

theorem pop_frame {t : Option T} (h : ch.pop = some (t, ch')) : SameFrame ch ch' := by
  unfold pop at h
  split at h
  · obtain ⟨⟨slot, q⟩, -, heq⟩ := Option.map_eq_some_iff.mp h
    cases heq
    exact ⟨fun op => by cases op <;> rfl, rfl, rfl, rfl⟩
  · split at h
    · cases h
    · cases h
      exact ⟨fun op => by cases op <;> rfl, rfl, rfl, rfl⟩

def isEmpty (ch : FastChannelImpl T) : Bool :=
  if ch.useRingBuffer_ then ch.q_.empty else ch.lq_.isEmpty

def isFull (ch : FastChannelImpl T) : Bool :=
  if ch.useRingBuffer_ then ch.q_.full else ch.lq_.length ≥ ch.capacity_.toNat

theorem push_eq_none_iff {t : Option T} : ch.push t = none ↔ ch.isFull = true := by
  unfold push isFull
  split
  · simp only [Option.map_eq_none_iff, RingBuffer.push]
    split_ifs with hfull <;> simp [hfull]
  · simp

theorem pop_eq_none_iff : ch.pop = none ↔ ch.isEmpty = true := by
  unfold pop isEmpty
  split
  · simp only [Option.map_eq_none_iff, RingBuffer.pop]
    split_ifs with hempty <;> simp [hempty]
  · cases ch.lq_ <;> simp

theorem size_push {t : Option T} (h : ch.push t = some ch') : ch'.size = ch.size + 1 := by
  unfold push at h
  unfold size
  split at h
  case isTrue hring =>
    obtain ⟨q, hq, rfl⟩ := Option.map_eq_some_iff.mp h
    simp only [hring, if_true]
    exact RingBuffer.size_push hq
  case isFalse hring =>
    split at h
    · cases h
    · cases h
      simp [hring, BitVec.ofNat_add]

theorem size_pop {t : Option T} (h : ch.pop = some (t, ch')) : ch.size = ch'.size + 1 := by
  unfold pop at h
  unfold size
  split at h
  case isTrue hring =>
    obtain ⟨⟨slot, q⟩, hq, heq⟩ := Option.map_eq_some_iff.mp h
    cases heq
    simp only [hring, if_true]
    exact RingBuffer.size_pop hq
  case isFalse hring =>
    split at h
    · cases h
    · rename_i t' lq hlq
      cases h
      simp [hring, hlq, BitVec.ofNat_add]

theorem pop_write {t : Option T} (h : ch.pop = some (t, ch')) :
    ch'.q_.write_ = ch.q_.write_ ∧ ch'.pushes = ch.pushes := by
  unfold pop at h
  split at h
  · obtain ⟨⟨slot, q⟩, hq, heq⟩ := Option.map_eq_some_iff.mp h
    cases heq
    exact ⟨RingBuffer.pop_write hq, rfl⟩
  · split at h
    · cases h
    · cases h
      exact ⟨rfl, rfl⟩

/-- A `push` after which one element is stored went to an empty buffer. -/
theorem isEmpty_of_push {t : Option T} (h : ch.push t = some ch') (hsize : ch'.size = 1) :
    ch.isEmpty = true := by
  have hzero : ch.size = 0 := by
    have := size_push h
    rw [hsize] at this
    bv_omega
  have hnone : ch.push t ≠ none := by simp [h]
  rw [ne_eq, push_eq_none_iff] at hnone
  unfold size at hzero
  unfold isFull at hnone
  unfold isEmpty
  split_ifs at hzero hnone ⊢ with hring
  · simpa [RingBuffer.empty] using hzero
  · have hlt := ch.capacity_.isLt
    have hlen : ch.lq_.length % 2 ^ 64 = 0 := by
      simpa using congrArg BitVec.toNat hzero
    simp only [ge_iff_le, decide_eq_true_eq, not_le] at hnone
    rw [Nat.mod_eq_of_lt (by omega)] at hlen
    simpa using hlen

@[simp] theorem setWaitq_closed (q : WaitQueue1 EntryHook) :
    (ch.setWaitq op q).closed_ = ch.closed_ := by
  cases op <;> rfl

@[simp] theorem setWaitq_capacity (q : WaitQueue1 EntryHook) :
    (ch.setWaitq op q).capacity_ = ch.capacity_ := by
  cases op <;> rfl

end FastChannelImpl

def Call.pend {T : Type*} (op : ChanOp) (c : Call T) : Bool :=
  c.op == op && c.success_.isNone

def Call.ok {T : Type*} (op : ChanOp) (c : Call T) : Bool :=
  c.op == op && c.success_ == some true

theorem Call.success_of_pend {T : Type*} {op : ChanOp} {c : Call T}
    (h : c.pend op = true) : c.success_ = none := by
  simp only [Call.pend, Bool.and_eq_true, Option.isNone_iff_eq_none] at h
  exact h.2

theorem Call.ok_of_pend {T : Type*} {op : ChanOp} {c : Call T} (h : c.pend op = true) :
    c.ok op = false := by
  simp [Call.ok, Call.success_of_pend h]

namespace ChannelState

variable {T : Type*} {s s' : ChannelState T} {op op' : ChanOp}

/-- The undecided callers of `op`, in order of arrival. -/
def waiting (s : ChannelState T) (op : ChanOp) : List Nat :=
  positions (Call.pend op) s.calls

/-- The values of the successful calls of `op`, in order of arrival. -/
def values (s : ChannelState T) (op : ChanOp) : List (Option T) :=
  (s.calls.filter (Call.ok op)).map Call.t

/-- The queues hold the undecided calls.  This is so in every run. -/
def Linked (s : ChannelState T) : Prop :=
  ∀ op, Queued (s.ch.waitq op) (s.waiting op)

theorem linked_make (capacity : BitVec 64) (useRing : Bool) :
    (make capacity useRing : ChannelState T).Linked := by
  intro op
  cases op <;> exact ⟨rfl, WaitQueue1.represents_make none⟩

section Finish

variable {task : Nat} {t : Option T} {ret : Bool}

@[simp] theorem finish_ch : (s.finish op task t ret).ch = s.ch := rfl

theorem waiting_finish : (s.finish op task t ret).waiting op' = s.waiting op' := by
  simp [waiting, finish, Call.finished, positions_concat, Call.pend]

theorem Linked.finish (h : s.Linked) : (s.finish op task t ret).Linked := by
  intro op'
  rw [waiting_finish]
  exact h op'

theorem values_finish : (s.finish op task t ret).values op' =
    s.values op' ++ if op = op' ∧ ret = true then [t] else [] := by
  by_cases hop : op = op' <;> cases ret <;>
    simp [values, ChannelState.finish, Call.finished, Call.ok, List.filter_append, hop]

end Finish

section Waite

variable {task : Nat} {t : Option T} {timeout : Int}

@[simp] theorem waite_ch : (s.waite op task t timeout).ch =
    s.ch.setWaitq op ((s.ch.waitq op).push (some s.calls.length)) := rfl

theorem waiting_waite : (s.waite op task t timeout).waiting op' =
    s.waiting op' ++ if op = op' then [s.calls.length] else [] := by
  by_cases hop : op = op' <;>
    simp [waiting, waite, Call.entering, suspendBySelfIo, positions_concat, Call.pend, hop]

theorem length_not_mem_waiting : s.calls.length ∉ s.waiting op := by
  intro hmem
  obtain ⟨c, hc, -⟩ := mem_positions.mp hmem
  simp at hc

theorem Linked.waite (h : s.Linked) : (s.waite op task t timeout).Linked := by
  intro op'
  rw [waiting_waite]
  by_cases hop : op = op'
  · subst hop
    simpa [ChannelState.waite, suspendBySelfIo] using (h op).push length_not_mem_waiting
  · simpa [ChannelState.waite, suspendBySelfIo, hop] using h op'

theorem values_waite : (s.waite op task t timeout).values op' = s.values op' := by
  simp [values, waite, Call.entering, suspendBySelfIo, Call.ok, List.filter_append]

end Waite

section Decide

variable {value : Option T} {x : Nat} {xs : List Nat}
  {entry : Call T} {ch : FastChannelImpl T} {b : Bool}

theorem exists_entry (h : s.waiting op = x :: xs) :
    ∃ entry, s.calls[x]? = some entry ∧ entry.pend op = true :=
  mem_positions.mp (h ▸ List.mem_cons_self : x ∈ s.waiting op)

theorem pend_head (hx : s.waiting op = x :: xs) (hentry : s.calls[x]? = some entry) :
    entry.pend op = true := by
  obtain ⟨entry', hentry', hpend⟩ := exists_entry hx
  cases hentry.symm.trans hentry'
  exact hpend

theorem notifyOne_nil {func : Option (ChanFunctor T)} {t : Option T} (h : s.Linked)
    (hx : s.waiting op = []) : s.notifyOne op func t = none := by
  have hq := h op
  rw [hx] at hq
  simp [notifyOne, hq.pop_nil]

/-- `NotifyOne` decides the call that has waited longest. -/
theorem notifyOne_cons (func : Option (ChanFunctor T)) (t : Option T) (h : s.Linked)
    (hx : s.waiting op = x :: xs) (hentry : s.calls[x]? = some entry) :
    ∃ q, Queued q xs ∧ s.notifyOne op func t =
      some (s.decide (applyFunctor func (s.ch.setWaitq op q) t entry.t).1 x entry
          (applyFunctor func (s.ch.setWaitq op q) t entry.t).2.2.1
          (applyFunctor func (s.ch.setWaitq op q) t entry.t).2.2.2,
        (applyFunctor func (s.ch.setWaitq op q) t entry.t).2.1) := by
  have hq := h op
  rw [hx] at hq
  obtain ⟨q, hpop, hq'⟩ := hq.pop_cons
  exact ⟨q, hq', by simp [notifyOne, hpop, hentry]⟩

@[simp] theorem decide_ch : (s.decide ch x entry value b).ch = ch := rfl

theorem waiting_decide (hx : s.waiting op = x :: xs) (hentry : s.calls[x]? = some entry) :
    (s.decide ch x entry value b).waiting op' = if op = op' then xs else s.waiting op' := by
  have hnot : Call.pend op' { entry with t := value, success_ := some b } = false := by
    simp [Call.pend]
  by_cases hop : op = op'
  · subst hop
    simpa [waiting, decide, wakeupBySelfIo] using positions_set_head hx hnot
  · have hpend := pend_head hx hentry
    simp only [Call.pend, Bool.and_eq_true, beq_iff_eq] at hpend
    have hne : entry.op ≠ op' := fun he => hop (hpend.1.symm.trans he)
    simpa [waiting, decide, wakeupBySelfIo, hop] using
      positions_set_same hentry (by rw [hnot]; simp [Call.pend, hne])

theorem Linked.decide {q : WaitQueue1 EntryHook} (h : s.Linked)
    (hx : s.waiting op = x :: xs) (hentry : s.calls[x]? = some entry) (hq : Queued q xs)
    (hch : FastChannelImpl.SameFrame (s.ch.setWaitq op q) ch) :
    (s.decide ch x entry value b).Linked := by
  intro op'
  rw [waiting_decide hx hentry]
  show Queued (ch.waitq op') _
  rw [hch.waitq, FastChannelImpl.waitq_setWaitq]
  by_cases hop : op = op'
  · simpa [hop] using hq
  · simpa [hop] using h op'

end Decide

section Amend

variable {x : Nat} {c c' : Call T}

theorem waiting_set (hx : s.calls[x]? = some c) (hcalls : s'.calls = s.calls.set x c')
    (hop : c'.op = c.op) (hs : c'.success_ = c.success_) :
    s'.waiting op = s.waiting op := by
  rw [waiting, hcalls]
  exact positions_set_same hx (by simp [Call.pend, hop, hs])

theorem Linked.set (h : s.Linked) (hx : s.calls[x]? = some c)
    (hcalls : s'.calls = s.calls.set x c') (hop : c'.op = c.op)
    (hs : c'.success_ = c.success_) (hch : s'.ch = s.ch) : s'.Linked := by
  intro op
  rw [waiting_set hx hcalls hop hs, hch]
  exact h op

end Amend

inductive PushOutcome (s : ChannelState T) (task : Nat) (v : T) (timeout : Int) :
    ChannelState T → Prop
  | fails (h : s.ch.closed_ = true ∨ timeout = 0) :
      PushOutcome s task v timeout (s.finish .push task (some v) false)
  | blocks (hopen : s.ch.closed_ = false) (ht : timeout ≠ 0)
      (h : s.ch.capacity_ = 0 ∧ s.waiting .pop = [] ∨
        s.ch.capacity_ ≠ 0 ∧ s.ch.push (some v) = none) :
      PushOutcome s task v timeout (s.waite .push task (some v) timeout)
  | hands {x : Nat} {xs : List Nat} {entry : Call T} {q : WaitQueue1 EntryHook}
      (hopen : s.ch.closed_ = false) (hcap : s.ch.capacity_ = 0)
      (hx : s.waiting .pop = x :: xs) (hentry : s.calls[x]? = some entry)
      (hq : Queued q xs) :
      PushOutcome s task v timeout
        ((s.decide (s.ch.setWaitq .pop q) x entry (some v) true).finish
          .push task (some v) true)
  | buffers {ch : FastChannelImpl T} (hopen : s.ch.closed_ = false)
      (hcap : s.ch.capacity_ ≠ 0) (hpush : s.ch.push (some v) = some ch)
      (h : ch.size ≠ 1 ∨ s.waiting .pop = []) :
      PushOutcome s task v timeout
        (ChannelState.finish { s with ch := ch } .push task (some v) true)
  | relays {ch : FastChannelImpl T} {x : Nat} {xs : List Nat} {entry : Call T}
      {q : WaitQueue1 EntryHook} (hopen : s.ch.closed_ = false)
      (hcap : s.ch.capacity_ ≠ 0) (hpush : s.ch.push (some v) = some ch)
      (hsize : ch.size = 1) (hx : s.waiting .pop = x :: xs)
      (hentry : s.calls[x]? = some entry) (hq : Queued q xs) :
      PushOutcome s task v timeout
        ((s.decide (popToReader (ch.setWaitq .pop q) (some v) entry.t).1 x entry
          (popToReader (ch.setWaitq .pop q) (some v) entry.t).2.2 true).finish
            .push task (some v) true)

inductive PopOutcome (s : ChannelState T) (task : Nat) (timeout : Int) :
    ChannelState T → Prop
  | fails (h : s.ch.closed_ = true ∨ timeout = 0) :
      PopOutcome s task timeout (s.finish .pop task none false)
  | blocks (hopen : s.ch.closed_ = false) (ht : timeout ≠ 0)
      (h : s.ch.capacity_ = 0 ∧ s.waiting .push = [] ∨
        s.ch.capacity_ ≠ 0 ∧ s.ch.pop = none) :
      PopOutcome s task timeout (s.waite .pop task none timeout)
  | takes {x : Nat} {xs : List Nat} {entry : Call T} {q : WaitQueue1 EntryHook}
      (hopen : s.ch.closed_ = false) (hcap : s.ch.capacity_ = 0)
      (hx : s.waiting .push = x :: xs) (hentry : s.calls[x]? = some entry)
      (hq : Queued q xs) :
      PopOutcome s task timeout
        ((s.decide (s.ch.setWaitq .push q) x entry entry.t true).finish
          .pop task entry.t true)
  | unbuffers {ch : FastChannelImpl T} {t : Option T} (hopen : s.ch.closed_ = false)
      (hcap : s.ch.capacity_ ≠ 0) (hpop : s.ch.pop = some (t, ch))
      (h : ch.size ≠ ch.capacity_ - 1 ∨ s.waiting .push = []) :
      PopOutcome s task timeout (ChannelState.finish { s with ch := ch } .pop task t true)
  | refills {ch : FastChannelImpl T} {t : Option T} {x : Nat} {xs : List Nat}
      {entry : Call T} {q : WaitQueue1 EntryHook} (hopen : s.ch.closed_ = false)
      (hcap : s.ch.capacity_ ≠ 0) (hpop : s.ch.pop = some (t, ch))
      (hsize : ch.size = ch.capacity_ - 1) (hx : s.waiting .push = x :: xs)
      (hentry : s.calls[x]? = some entry) (hq : Queued q xs) :
      PopOutcome s task timeout
        ((s.decide (pushFromWriter (ch.setWaitq .push q) t entry.t).1 x entry
          entry.t true).finish .pop task t true)

theorem linked_of_frame {ch : FastChannelImpl T} (h : s.Linked)
    (hch : FastChannelImpl.SameFrame s.ch ch) : Linked { s with ch := ch } := by
  intro op
  show Queued (ch.waitq op) _
  rw [hch.waitq]
  exact h op

theorem popToReader_frame {ch : FastChannelImpl T} {t p : Option T} :
    FastChannelImpl.SameFrame ch (popToReader ch t p).1 := by
  unfold popToReader
  cases hpop : ch.pop with
  | none => exact .rfl
  | some res => exact FastChannelImpl.pop_frame hpop

theorem pushFromWriter_frame {ch : FastChannelImpl T} {t p : Option T} :
    FastChannelImpl.SameFrame ch (pushFromWriter ch t p).1 := by
  unfold pushFromWriter
  cases hpush : ch.push p with
  | none => exact .rfl
  | some ch' => exact FastChannelImpl.push_frame hpush

theorem push_outcome (h : s.Linked) (task : Nat) (v : T) (timeout : Int) :
    PushOutcome s task v timeout (s.push task v timeout) := by
  unfold ChannelState.push
  by_cases hclosed : s.ch.closed_ = true
  · simp only [hclosed, if_true]
    exact .fails (.inl hclosed)
  have hopen : s.ch.closed_ = false := by simpa using hclosed
  simp only [hopen, Bool.false_eq_true, if_false]
  by_cases hcap : s.ch.capacity_ = 0
  · simp only [hcap, if_true]
    cases hx : s.waiting .pop with
    | nil =>
        rw [readNotifyOne, notifyOne_nil h hx]
        by_cases ht : timeout = 0
        · simpa [ht] using PushOutcome.fails (.inr ht)
        · simp only [ht, if_false]
          exact .blocks hopen ht (.inl ⟨hcap, hx⟩)
    | cons x xs =>
        obtain ⟨entry, hentry, -⟩ := exists_entry hx
        obtain ⟨q, hq, hn⟩ := notifyOne_cons (some giveToReader) (some v)
          h hx hentry
        rw [readNotifyOne, hn]
        exact .hands hopen hcap hx hentry hq
  · simp only [hcap, if_false]
    cases hpush : s.ch.push (some v) with
    | none =>
        by_cases ht : timeout = 0
        · simpa [ht] using PushOutcome.fails (.inr ht)
        · simp only [ht, if_false]
          exact .blocks hopen ht (.inr ⟨hcap, hpush⟩)
    | some ch =>
        have hlink := linked_of_frame h (FastChannelImpl.push_frame hpush)
        by_cases hsize : ch.size = 1
        · simp only [hsize, if_true]
          cases hx : s.waiting .pop with
          | nil =>
              rw [readNotifyOne, notifyOne_nil hlink hx]
              exact .buffers hopen hcap hpush (.inr hx)
          | cons x xs =>
              obtain ⟨entry, hentry, -⟩ := exists_entry hx
              obtain ⟨q, hq, hn⟩ := notifyOne_cons (some popToReader) (some v)
                hlink hx hentry
              have ht : (popToReader (ch.setWaitq .pop q) (some v) entry.t).2.1 = some v := by
                unfold popToReader
                split <;> rfl
              rw [readNotifyOne, hn]
              simp only [applyFunctor, ht]
              exact .relays hopen hcap hpush hsize hx hentry hq
        · simp only [hsize, if_false]
          exact .buffers hopen hcap hpush (.inl hsize)

theorem pop_outcome (h : s.Linked) (task : Nat) (timeout : Int) :
    PopOutcome s task timeout (s.pop task timeout) := by
  unfold ChannelState.pop
  by_cases hclosed : s.ch.closed_ = true
  · simp only [hclosed, if_true]
    exact .fails (.inl hclosed)
  have hopen : s.ch.closed_ = false := by simpa using hclosed
  simp only [hopen, Bool.false_eq_true, if_false]
  by_cases hcap : s.ch.capacity_ = 0
  · have hpos : ¬ s.ch.capacity_ > 0 := by simp [hcap]
    simp only [hpos, if_false]
    cases hx : s.waiting .push with
    | nil =>
        rw [writeNotifyOne, notifyOne_nil h hx]
        by_cases ht : timeout = 0
        · simpa [ht] using PopOutcome.fails (.inr ht)
        · simp only [ht, if_false]
          exact .blocks hopen ht (.inl ⟨hcap, hx⟩)
    | cons x xs =>
        obtain ⟨entry, hentry, -⟩ := exists_entry hx
        obtain ⟨q, hq, hn⟩ := notifyOne_cons (some takeFromWriter) none
          h hx hentry
        rw [writeNotifyOne, hn]
        exact .takes hopen hcap hx hentry hq
  · have hpos : s.ch.capacity_ > 0 := by
      have hne : s.ch.capacity_.toNat ≠ 0 := fun h0 => hcap (BitVec.eq_of_toNat_eq h0)
      exact BitVec.lt_def.mpr (Nat.pos_of_ne_zero hne)
    simp only [hpos, if_true]
    cases hpop : s.ch.pop with
    | none =>
        by_cases ht : timeout = 0
        · simpa [ht] using PopOutcome.fails (.inr ht)
        · simp only [ht, if_false]
          exact .blocks hopen ht (.inr ⟨hcap, hpop⟩)
    | some res =>
        obtain ⟨t, ch⟩ := res
        have hlink := linked_of_frame h (FastChannelImpl.pop_frame hpop)
        by_cases hsize : ch.size = ch.capacity_ - 1
        · simp only [hsize, if_true]
          cases hx : s.waiting .push with
          | nil =>
              rw [writeNotifyOne, notifyOne_nil hlink hx]
              exact .unbuffers hopen hcap hpop (.inr hx)
          | cons x xs =>
              obtain ⟨entry, hentry, -⟩ := exists_entry hx
              obtain ⟨q, hq, hn⟩ := notifyOne_cons (some pushFromWriter) t hlink hx hentry
              rw [writeNotifyOne, hn]
              exact .refills hopen hcap hpop hsize hx hentry hq
        · simp only [hsize, if_false]
          exact .unbuffers hopen hcap hpop (.inl hsize)

/-- `while (NotifyOne(nullptr)) {}` empties the queue; what every round keeps is
kept by the loop. -/
theorem notifyLoop_rule {P : ChannelState T → Prop} (n : Nat) (hlink : s.Linked)
    (hn : (s.waiting op).length = n) (hP : P s)
    (hround : ∀ s x xs entry q, s.Linked → P s → s.waiting op = x :: xs →
      s.calls[x]? = some entry → entry.pend op = true → Queued q xs →
      P (s.decide (s.ch.setWaitq op q) x entry entry.t false)) :
    (notifyLoop op n s).Linked ∧ P (notifyLoop op n s) ∧
      (notifyLoop op n s).waiting op = [] := by
  induction n generalizing s with
  | zero => exact ⟨hlink, hP, List.length_eq_zero_iff.mp hn⟩
  | succ n ih =>
      cases hx : s.waiting op with
      | nil => simp [hx] at hn
      | cons x xs =>
          obtain ⟨entry, hentry, hpend⟩ := exists_entry hx
          obtain ⟨q, hq, hnotify⟩ := notifyOne_cons none none hlink hx hentry
          have hlen : xs.length = n := by simpa [hx] using hn
          rw [notifyLoop, hnotify]
          refine ih (hlink.decide hx hentry hq .rfl) ?_
            (hround s x xs entry q hlink hP hx hentry hpend hq)
          rw [waiting_decide hx hentry]
          simpa using hlen

theorem notifyAll_rule {P : ChannelState T → Prop} (hlink : s.Linked) (hP : P s)
    (hround : ∀ op s x xs entry q, s.Linked → P s → s.waiting op = x :: xs →
      s.calls[x]? = some entry → entry.pend op = true → Queued q xs →
      P (s.decide (s.ch.setWaitq op q) x entry entry.t false)) :
    s.notifyAll.Linked ∧ P s.notifyAll ∧ ∀ op, s.notifyAll.waiting op = [] := by
  have hread := notifyLoop_rule s.ch.rq_.count_ hlink (hlink .pop).count_eq.symm hP
    (hround .pop)
  generalize hs' : notifyLoop .pop s.ch.rq_.count_ s = s' at hread
  obtain ⟨hlink', hP', hempty⟩ := hread
  have hwrite := notifyLoop_rule (P := fun u => P u ∧ u.waiting .pop = []) s'.ch.wq_.count_
    hlink' (hlink' .push).count_eq.symm ⟨hP', hempty⟩
    fun u x xs entry q hu hPu hx hentry hpend hq =>
      ⟨hround .push u x xs entry q hu hPu.1 hx hentry hpend hq, by
        rw [waiting_decide hx hentry]
        exact hPu.2⟩
  have heq : s.notifyAll = notifyLoop .push s'.ch.wq_.count_ s' := by rw [notifyAll, hs']
  rw [heq]
  refine ⟨hwrite.1, hwrite.2.1.1, fun op => ?_⟩
  cases op with
  | push => exact hwrite.2.2
  | pop => exact hwrite.2.1.2

theorem Linked.push_outcome {task : Nat} {v : T} {timeout : Int} (h : s.Linked)
    (ho : PushOutcome s task v timeout s') : s'.Linked := by
  cases ho with
  | fails => exact h.finish
  | blocks => exact h.waite
  | hands _ _ hx hentry hq => exact (h.decide hx hentry hq .rfl).finish
  | buffers _ _ hpush => exact (linked_of_frame h (FastChannelImpl.push_frame hpush)).finish
  | relays _ _ hpush _ hx hentry hq =>
      have hlink := linked_of_frame h (FastChannelImpl.push_frame hpush)
      exact (hlink.decide hx hentry hq popToReader_frame).finish

theorem Linked.pop_outcome {task : Nat} {timeout : Int} (h : s.Linked)
    (ho : PopOutcome s task timeout s') : s'.Linked := by
  cases ho with
  | fails => exact h.finish
  | blocks => exact h.waite
  | takes _ _ hx hentry hq => exact (h.decide hx hentry hq .rfl).finish
  | unbuffers _ _ hpop => exact (linked_of_frame h (FastChannelImpl.pop_frame hpop)).finish
  | refills _ _ hpop _ hx hentry hq =>
      have hlink := linked_of_frame h (FastChannelImpl.pop_frame hpop)
      exact (hlink.decide hx hentry hq pushFromWriter_frame).finish

theorem linked_close (h : s.Linked) : Linked { s with ch := { s.ch with closed_ := true } } := by
  intro op
  cases op
  · exact h .push
  · exact h .pop

/-- What a step is: one of the critical sections, or an update of a single call
that may put its task back into a run queue. -/
inductive StepOutcome (s : ChannelState T) : ChanEvent T → ChannelState T → Prop
  | push {t : ChannelState T} {task : Nat} {v : T} {timeout : Int}
      (hfree : s.isFree task = true) (h : PushOutcome s task v timeout t) :
      StepOutcome s (.push task v timeout) t
  | pop {t : ChannelState T} {task : Nat} {timeout : Int}
      (hfree : s.isFree task = true) (h : PopOutcome s task timeout t) :
      StepOutcome s (.pop task timeout) t
  | closed (h : s.ch.closed_ = true) : StepOutcome s .close s
  | close (h : s.ch.closed_ = false) : StepOutcome s .close
      (notifyAll { s with ch := { s.ch with closed_ := true } })
  | fire {i : Nat} {c c' : Call T} (hc : s.calls[i]? = some c) (hfire : fire c = some c') :
      StepOutcome s (.fire i) { s with calls := s.calls.set i c' }
  | fireWake {i : Nat} {c : Call T} (hc : s.calls[i]? = some c) (hbegun : c.timer = .begun) :
      StepOutcome s (.fireWake i)
        (wakeupBySelfIo { s with calls := s.calls.set i { c with timer := .done } } c.task_)
  | resume {i : Nat} {c : Call T} (hc : s.calls[i]? = some c) (hwait : c.phase = .waiting)
      (hrunq : 1 ≤ s.runq c.task_) :
      StepOutcome s (.resume i)
        { s with calls := s.calls.set i (resumed c (s.wakes c.task_)) }
  | stopTimer {i : Nat} {c : Call T} (hc : s.calls[i]? = some c)
      (hstop : c.phase = .stopping) :
      StepOutcome s (.stopTimer i)
        { s with calls := s.calls.set i (timerStopped c (s.wakes c.task_)) }

theorem step_outcome (h : s.Linked) {a : ChanEvent T} (hs : step s a = some s') :
    StepOutcome s a s' := by
  cases a with
  | push task v timeout =>
      simp only [step, Option.ite_none_right_eq_some, Option.some.injEq] at hs
      obtain ⟨hfree, rfl⟩ := hs
      exact .push hfree (ChannelState.push_outcome h task v timeout)
  | pop task timeout =>
      simp only [step, Option.ite_none_right_eq_some, Option.some.injEq] at hs
      obtain ⟨hfree, rfl⟩ := hs
      exact .pop hfree (ChannelState.pop_outcome h task timeout)
  | close =>
      simp only [step, Option.some.injEq] at hs
      subst hs
      unfold ChannelState.close
      split
      case isTrue hclosed => exact .closed hclosed
      case isFalse hopen => exact .close (by simpa using hopen)
  | fire i =>
      simp only [step, Option.bind_eq_some_iff, Option.map_eq_some_iff] at hs
      obtain ⟨c, hc, c', hfire, rfl⟩ := hs
      exact .fire hc hfire
  | fireWake i =>
      simp only [step, Option.bind_eq_some_iff, Option.ite_none_right_eq_some,
        Option.some.injEq] at hs
      obtain ⟨c, hc, hbegun, rfl⟩ := hs
      exact .fireWake hc hbegun
  | resume i =>
      simp only [step, Option.bind_eq_some_iff, Option.ite_none_right_eq_some,
        Option.some.injEq] at hs
      obtain ⟨c, hc, ⟨hwait, hrunq⟩, rfl⟩ := hs
      exact .resume hc hwait hrunq
  | stopTimer i =>
      simp only [step, Option.bind_eq_some_iff, Option.ite_none_right_eq_some,
        Option.some.injEq] at hs
      obtain ⟨c, hc, hstop, rfl⟩ := hs
      exact .stopTimer hc hstop

theorem fire_eq {c c' : Call T} (h : ChannelState.fire c = some c') :
    c.timer = .armed ∧ c' = { c with timer := .begun, isTimeOut := true } := by
  simp only [ChannelState.fire, Option.ite_none_right_eq_some, Option.some.injEq] at h
  exact ⟨h.1, h.2.symm⟩

theorem resumed_keeps (c : Call T) (wakes : Nat) :
    (resumed c wakes).op = c.op ∧ (resumed c wakes).success_ = c.success_ ∧
      (resumed c wakes).t = c.t := by
  unfold resumed
  split_ifs <;> exact ⟨rfl, rfl, rfl⟩

theorem Linked.outcome {a : ChanEvent T} (h : s.Linked) (ho : StepOutcome s a s') :
    s'.Linked := by
  cases ho with
  | push _ ho => exact h.push_outcome ho
  | pop _ ho => exact h.pop_outcome ho
  | closed => exact h
  | close =>
      exact (notifyAll_rule (P := fun _ => True) (linked_close h) trivial
        fun _ _ _ _ _ _ _ _ _ _ _ _ => trivial).1
  | fire hc hfire =>
      obtain ⟨-, rfl⟩ := fire_eq hfire
      exact h.set hc rfl rfl rfl rfl
  | fireWake hc => exact h.set hc rfl rfl rfl rfl
  | resume hc =>
      have hkeeps := resumed_keeps (T := T)
      exact h.set hc rfl (hkeeps _ _).1 (hkeeps _ _).2.1 rfl
  | stopTimer hc => exact h.set hc rfl rfl rfl rfl

theorem linked_of_reach {C : ChannelState T → ChanEvent T → Prop} {capacity : BitVec 64}
    {useRing : Bool} (h : Lib.Machine.Reach step C (make capacity useRing) s) : s.Linked :=
  h.invariant (linked_make capacity useRing)
    fun _ _ _ hlink _ hs => Linked.outcome hlink (step_outcome hlink hs)

end ChannelState

end CppGo.Sync
