import CppGo.Sync.FastChannelFifo

/-!
# The contract of the channel

Two results about whole runs.  With timeouts that are zero or negative the channel
is a blocking FIFO.  With timers it conserves its values as long as a timer's
callback starts only for a call that `Close` has already failed.
-/

namespace CppGo.Sync

open CppGo.Lib.Arrivals CppGo.Lib.Machine

/-- What a call returns, and what it leaves of the caller's variable. -/
structure Call.Settled {T : Type*} (c : Call T) : Prop where
  ret : ∀ r, c.phase = .returned r → r = c.success_ ∧ r ≠ none
  late : c.isTimeOut = true → c.success_ = some false
  untouched : c.op = .pop → c.success_ ≠ some true → c.t = none

namespace ChannelState

variable {T : Type*} {s s' : ChannelState T} {xs : List (Option T)} {a : ChanEvent T}

/-! ## Conservation with timers -/

/-- A timer's callback starts only for a call that `Close` has failed, and a push
that re-bases the counters of the ring buffer moves no slot. -/
def conserving (s : ChannelState T) : ChanEvent T → Bool
  | .fire i => (s.calls[i]?).any fun c => c.success_ == some false
  | a => !s.fills a || s.ch.wrapSafe

/-- No callback has started, and nobody who has a timer has failed. -/
def Quiet (s : ChannelState T) : Prop :=
  ∀ (i : Nat) (c : Call T), s.calls[i]? = some c →
    c.isTimeOut = false ∧ (c.timer ≠ .none → c.success_ ≠ some false)

structure Conserving (s : ChannelState T) : Prop where
  fifo : ∃ xs, s.Fifo xs
  opened : s.ch.closed_ = false → s.Woken ∧ s.Quiet
  settled : ∀ (i : Nat) (c : Call T), s.calls[i]? = some c → c.Settled

theorem conserving_make {capacity : BitVec 64} {useRing : Bool}
    (hcap : capacity.toNat + 1 < 2 ^ 64) :
    (make capacity useRing : ChannelState T).Conserving where
  fifo := ⟨[], Fifo.make hcap⟩
  opened _ := ⟨Woken.make capacity useRing, by simp [Quiet, make]⟩
  settled := by simp [make]

namespace Conserving

theorem asleep (h : s.Conserving) {i : Nat} {c : Call T} (hc : s.calls[i]? = some c)
    (hnone : c.success_ = none) :
    s.ch.closed_ = false ∧ c.phase = .waiting ∧ c.isTimeOut = false ∧
      s.runq c.task_ = 0 := by
  obtain ⟨xs, hf⟩ := h.fifo
  have hopen : s.ch.closed_ = false := by
    rw [← Bool.not_eq_true]
    intro hclosed
    have hmem : i ∈ s.waiting c.op := mem_positions.mpr ⟨c, hc, by simp [Call.pend, hnone]⟩
    rw [hf.closed hclosed] at hmem
    cases hmem
  obtain ⟨hw, hq⟩ := h.opened hopen
  have hs := hw.sound i c hc
  have hto := (hq i c hc).1
  have hdone : c.timer ≠ .done := by
    intro hd
    rw [hs.flag.mpr (.inr hd)] at hto
    cases hto
  have hphase : c.phase = .waiting := by
    cases hp : c.phase with
    | waiting => rfl
    | stopping => exact absurd hnone (hs.stopping hp)
    | returned r => exact absurd (hs.expired (by simp [Call.isOpen, hp]) hnone) hdone
  have hruns := hw.own i c hc (by simp [Call.isOpen, hphase])
  simp only [Call.Runs, Call.asleep, hnone, Option.isNone_none, Bool.true_and, bne_iff_ne,
    ne_eq, hdone, not_false_eq_true, if_true] at hruns
  exact ⟨hopen, hphase, hto, hruns.1⟩

theorem punctual (h : s.Conserving) (hopen : s.ch.closed_ = false) (hc : s.conserving a = true)
    (ho : StepOutcome s a s') : s.punctual a = true := by
  have hq := (h.opened hopen).2
  have hlive : ∀ op, s.expired op = false := by
    intro op
    refine List.any_eq_false.mpr fun c hc => ?_
    obtain ⟨i, hi⟩ := List.mem_iff_getElem?.mp hc
    simp [(hq i c hi).1]
  cases ho with
  | fire hi hfire =>
      have hfailed := hc
      simp only [ChannelState.conserving, hi, Option.any_some, beq_iff_eq] at hfailed
      exact absurd hfailed ((hq _ _ hi).2 (by simp [(fire_eq hfire).1]))
  | _ => simp [ChannelState.punctual, hlive]

theorem quiet_step (h : s.Conserving) (hlink : s.Linked) (hopen : s'.ch.closed_ = false)
    (hopen' : s.ch.closed_ = false) (hc : s.conserving a = true) (ho : StepOutcome s a s') :
    s'.Quiet := by
  have hq := (h.opened hopen').2
  intro i c' hc'
  rcases calls_outcome hlink ho i c' hc' with ⟨c, hi, hstep⟩ | ⟨-, hnew⟩
  · have hold := hq i c hi
    cases hstep with
    | same => exact hold
    | serve => exact ⟨hold.1, by simp⟩
    | fail =>
        cases ho with
        | closed hclosed => simp [hclosed] at hopen
        | close =>
            have := closed_notifyAll (s := { s with ch := { s.ch with closed_ := true } })
              (linked_close hlink) rfl
            simp [this] at hopen
    | fire hj harmed =>
        have hfailed := hc
        simp only [ChannelState.conserving, hj, Option.any_some, beq_iff_eq] at hfailed
        exact absurd hfailed (hold.2 (by simp [harmed]))
    | fireWake hbegun =>
        have hflag := ((h.opened hopen').1.sound i c hi).flag.mpr (.inl hbegun)
        rw [hold.1] at hflag
        cases hflag
    | resume =>
        unfold resumed
        split_ifs <;> exact hold
    | stopTimer =>
        refine ⟨hold.1, fun htimer => hold.2 fun hnone => htimer ?_⟩
        simp [timerStopped, hnone]
  · cases hnew with
    | finish => simp [Call.finished]
    | push => simp [Call.entering]
    | pop => simp [Call.entering]

theorem settled_step (h : s.Conserving) (hlink : s.Linked) (hc : s.conserving a = true)
    (ho : StepOutcome s a s') (i : Nat) (c' : Call T) (hc' : s'.calls[i]? = some c') :
    c'.Settled := by
  rcases calls_outcome hlink ho i c' hc' with ⟨c, hi, hstep⟩ | ⟨-, hnew⟩
  · have hold := h.settled i c hi
    cases hstep with
    | same => exact hold
    | serve _ _ hpend =>
        obtain ⟨-, hphase, hto, -⟩ := h.asleep hi (Call.success_of_pend hpend)
        exact ⟨by simp [hphase], by simp [hto], by simp⟩
    | fail _ hpend =>
        obtain ⟨-, hphase, -⟩ := h.asleep hi (Call.success_of_pend hpend)
        exact ⟨by simp [hphase], by simp,
          fun hop _ => hold.untouched hop (by simp [Call.success_of_pend hpend])⟩
    | fire hj harmed =>
        simp only [ChannelState.conserving, hj, Option.any_some, beq_iff_eq] at hc
        exact ⟨hold.ret, fun _ => hc, hold.untouched⟩
    | fireWake => exact ⟨hold.ret, hold.late, hold.untouched⟩
    | resume hwait hrunq =>
        have hdecided : c.success_ ≠ none := by
          intro hnone
          have := (h.asleep hi hnone).2.2.2
          omega
        unfold resumed
        split_ifs with htimer hto
        · refine ⟨fun r hr => ?_, hold.late, hold.untouched⟩
          cases hr
          exact ⟨rfl, hdecided⟩
        · refine ⟨fun r hr => ?_, hold.late, hold.untouched⟩
          cases hr
          exact ⟨(hold.late hto).symm, by simp⟩
        · exact ⟨by simp, hold.late, hold.untouched⟩
    | stopTimer hstop =>
        have hdecided : c.success_ ≠ none := by
          intro hnone
          have := (h.asleep hi hnone).2.1
          rw [hstop] at this
          cases this
        refine ⟨fun r hr => ?_, hold.late, hold.untouched⟩
        simp only [timerStopped, CallPhase.returned.injEq] at hr
        exact ⟨hr.symm, hr ▸ hdecided⟩
  · cases hnew with
    | finish ht =>
        refine ⟨?_, by simp [Call.finished], ?_⟩
        · intro r hr
          simp only [Call.finished, CallPhase.returned.injEq] at hr
          simp [Call.finished, ← hr]
        · intro hop hok
          exact ht hop (by simpa [Call.finished] using hok)
    | push => exact ⟨by simp [Call.entering], by simp [Call.entering], by simp [Call.entering]⟩
    | pop => exact ⟨by simp [Call.entering], by simp [Call.entering], by simp [Call.entering]⟩

theorem outcome (h : s.Conserving) (hlink : s.Linked) (hc : s.conserving a = true)
    (ho : StepOutcome s a s') : s'.Conserving := by
  refine ⟨?_, fun hopen => ?_, h.settled_step hlink hc ho⟩
  · obtain ⟨xs, hf⟩ := h.fifo
    refine hf.outcome hlink ho fun hfills => ?_
    cases a with
    | fire i => cases hfills
    | _ => simpa [ChannelState.conserving, hfills] using hc
  · have hopen' : s.ch.closed_ = false := by
      rw [← Bool.not_eq_true]
      intro hclosed
      rw [closed_outcome hlink ho hclosed] at hopen
      cases hopen
    exact ⟨(h.opened hopen').1.outcome hlink (h.punctual hopen' hc ho) ho,
      h.quiet_step hlink hopen hopen' hc ho⟩

end Conserving

theorem conserving_of_reach {capacity : BitVec 64} {useRing : Bool}
    (hcap : capacity.toNat + 1 < 2 ^ 64)
    (h : Reach step (fun s a => s.conserving a = true) (make capacity useRing) s) :
    s.Conserving :=
  h.invariant_of (fun _ => linked_of_reach) (conserving_make hcap)
    fun _ _ _ hlink hinv hc hs => hinv.outcome hlink hc (step_outcome hlink hs)

/-- What it means that a channel conserves its values.  The queues hold only entries
of calls that are still blocked; a call returns what was decided about it; the
values of the successful pushes are those of the successful pops followed by the
buffer; and a pop that was not successful has received nothing. -/
structure Conserves (s : ChannelState T) : Prop where
  queues : ∀ op, ∀ hook ∈ (s.ch.waitq op).toList, ∃ i c, hook = some i ∧
    s.calls[i]? = some c ∧ c.op = op ∧ c.phase = .waiting ∧ c.success_ = none ∧
    c.isTimeOut = false ∧ s.runq c.task_ = 0
  returned : ∀ c ∈ s.calls, ∀ r, c.phase = .returned r → r = c.success_ ∧ r ≠ none
  values : s.values .push = s.values .pop ++ s.ch.buffer
  untouched : ∀ c ∈ s.calls, c.op = .pop → c.success_ ≠ some true → c.t = none

theorem Conserving.conserves (h : s.Conserving) (hlink : s.Linked) : s.Conserves := by
  obtain ⟨xs, hf⟩ := h.fifo
  refine ⟨fun op hook hhook => ?_, fun c hc => ?_, ?_, fun c hc => ?_⟩
  · rw [(hlink op).toList_eq] at hhook
    obtain ⟨i, hi, rfl⟩ := List.mem_map.mp hhook
    obtain ⟨c, hc, hpend⟩ := mem_positions.mp hi
    have hnone := Call.success_of_pend hpend
    obtain ⟨-, hphase, hto, hrunq⟩ := h.asleep hc hnone
    have hop : c.op = op := by simpa using (Bool.and_eq_true_iff.mp hpend).1
    exact ⟨i, c, rfl, hc, hop, hphase, hnone, hto, hrunq⟩
  · obtain ⟨i, hi⟩ := List.mem_iff_getElem?.mp hc
    exact (h.settled i c hi).ret
  · rw [hf.buffers.buffer_eq]
    exact hf.values
  · obtain ⟨i, hi⟩ := List.mem_iff_getElem?.mp hc
    exact (h.settled i c hi).untouched

/-- The channel conserves its values in every run under the condition. -/
theorem conserves_of_conserving (capacity : BitVec 64) (useRing : Bool)
    (hcap : capacity.toNat + 1 < 2 ^ 64) (s : ChannelState T)
    (h : Reach step (fun s a => s.conserving a = true) (make capacity useRing) s) :
    s.Conserves :=
  (conserving_of_reach hcap h).conserves (linked_of_reach h)

/-- A timed push is closed, and its timer expires before it runs again. -/
theorem conserves_after_close :
    ∃ s : ChannelState Nat,
      run step (fun s a => s.conserving a = true) (make 0 true)
        [.push 1 7 10, .close, .fire 0, .fireWake 0, .resume 0] = some s ∧ s.Conserves :=
  ⟨_, rfl, conserves_of_conserving 0 true (by decide) _ (reach_of_run
    ([.push 1 7 10, .close, .fire 0, .fireWake 0, .resume 0]) rfl)⟩

/-- A pop takes the value of a timed push whose timer then expires: the push returns
false although its value has been received. -/
theorem not_conserves_after_late_timer :
    ¬ ∀ (capacity : BitVec 64) (useRing : Bool) (s : ChannelState Nat),
      capacity.toNat + 1 < 2 ^ 64 → Reach step Free (make capacity useRing) s →
        s.Conserves := by
  intro hall
  obtain ⟨s, hrun, c, hc, hret, hok⟩ : ∃ s : ChannelState Nat,
      run step Free (make 0 true)
        [.push 1 7 10, .pop 2 0, .fire 0, .fireWake 0, .resume 0] = some s ∧
        ∃ c, s.calls[0]? = some c ∧ c.phase = .returned (some false) ∧
          c.success_ = some true := ⟨_, rfl, _, rfl, rfl, rfl⟩
  have := (hall 0 true s (by decide) (reach_of_run _ hrun)).returned c
    (List.mem_of_getElem? hc) _ hret
  simp [hok] at this

/-! ## The blocking FIFO -/

def untimed (_ : ChannelState T) : ChanEvent T → Bool
  | .push _ _ timeout => timeout ≤ 0
  | .pop _ timeout => timeout ≤ 0
  | _ => true

def Timerless (s : ChannelState T) : Prop :=
  ∀ (i : Nat) (c : Call T), s.calls[i]? = some c → c.timer = .none ∧ c.isTimeOut = false

theorem Timerless.outcome (h : s.Timerless) (hlink : s.Linked) (hu : s.untimed a = true)
    (ho : StepOutcome s a s') : s'.Timerless := by
  intro i c' hc'
  rcases calls_outcome hlink ho i c' hc' with ⟨c, hi, hstep⟩ | ⟨-, hnew⟩
  · have hold := h i c hi
    cases hstep with
    | fire _ harmed => simp [hold.1] at harmed
    | fireWake hbegun => simp [hold.1] at hbegun
    | resume =>
        unfold resumed
        split_ifs <;> exact hold
    | stopTimer => simp [timerStopped, hold.1, hold.2]
    | _ => exact hold
  · cases hnew with
    | finish => exact ⟨rfl, rfl⟩
    | @push task v timeout =>
        have : ¬ timeout > 0 := by simpa [untimed] using hu
        simp [Call.entering, this]
    | @pop task timeout =>
        have : ¬ timeout > 0 := by simpa [untimed] using hu
        simp [Call.entering, this]

/-- While fewer than `2 ^ 64 - 1` values were put into the buffer, `write_` counts
at most these. -/
def Counted (ch : FastChannelImpl T) : Prop :=
  ch.pushes < 2 ^ 64 - 1 → ch.q_.write_.toNat ≤ ch.pushes

theorem counted_push {ch ch' : FastChannelImpl T} {t : Option T} (h : Counted ch)
    (hpush : ch.push t = some ch') : Counted ch' := by
  unfold FastChannelImpl.push at hpush
  split at hpush
  · obtain ⟨q, hq, rfl⟩ := Option.map_eq_some_iff.mp hpush
    intro hlt
    have hlt : ch.pushes + 1 < 2 ^ 64 - 1 := hlt
    have hle := h (by omega)
    have := RingBuffer.push_write_le hq (by omega)
    exact this.trans (by simpa using hle)
  · split at hpush
    · cases hpush
    · cases hpush
      intro hlt
      have hlt : ch.pushes + 1 < 2 ^ 64 - 1 := hlt
      exact (h (by omega)).trans (Nat.le_succ _)

theorem pushes_le_of_push {ch ch' : FastChannelImpl T} {t : Option T}
    (hpush : ch.push t = some ch') : ch.pushes ≤ ch'.pushes := by
  unfold FastChannelImpl.push at hpush
  split at hpush
  · obtain ⟨q, -, rfl⟩ := Option.map_eq_some_iff.mp hpush
    exact Nat.le_succ _
  · split at hpush
    · cases hpush
    · cases hpush
      exact Nat.le_succ _

theorem Counted.outcome (h : Counted s.ch) (hlink : s.Linked) (ho : StepOutcome s a s') :
    Counted s'.ch := by
  refine channel_outcome hlink ho h (fun _ _ _ => counted_push) (fun ch t ch' hR hpop => ?_)
    (fun ch op q hR => ?_) (fun _ ch hR => hR)
  · obtain ⟨hwrite, hpushes⟩ := FastChannelImpl.pop_write hpop
    unfold Counted
    rw [hwrite, hpushes]
    exact hR
  · cases op <;> exact hR

theorem pushes_le_outcome (hlink : s.Linked) (ho : StepOutcome s a s') :
    s.ch.pushes ≤ s'.ch.pushes := by
  refine channel_outcome (R := fun ch => s.ch.pushes ≤ ch.pushes) hlink ho le_rfl
    (fun _ _ _ hR hp => hR.trans (pushes_le_of_push hp)) (fun ch t ch' hR hpop => ?_)
    (fun ch op q hR => ?_) (fun _ ch hR => hR)
  · rw [(FastChannelImpl.pop_write hpop).2]
    exact hR
  · cases op <;> exact hR

section Untimed

variable {capacity : BitVec 64} {useRing : Bool}

theorem timerless_of_reach
    (h : Reach step (fun s a => s.untimed a = true) (make capacity useRing) s) :
    s.Timerless :=
  h.invariant_of (fun _ => linked_of_reach) (by simp [Timerless, make])
    fun _ _ _ hlink ht hu hs => ht.outcome hlink hu (step_outcome hlink hs)

theorem punctual_of_untimed
    (h : Reach step (fun s a => s.untimed a = true) (make capacity useRing) s) :
    Reach step (fun s a => s.punctual a = true) (make capacity useRing) s := by
  induction h with
  | refl => exact .refl
  | @tail t u a ht _ hs ih =>
      refine .tail ih ?_ hs
      have hless := timerless_of_reach ht
      have hlive : ∀ op, t.expired op = false := by
        intro op
        refine List.any_eq_false.mpr fun c hc => ?_
        obtain ⟨i, hi⟩ := List.mem_iff_getElem?.mp hc
        simp [(hless i c hi).2]
      cases step_outcome (linked_of_reach ht) hs with
      | fire hc hfire => simp [fire, (hless _ _ hc).1] at hfire
      | _ => simp [punctual, hlive]

theorem conserving_of_untimed
    (h : Reach step (fun s a => s.untimed a = true) (make capacity useRing) s)
    (hp : s.ch.pushes < 2 ^ 64 - 1) :
    Reach step (fun s a => s.conserving a = true) (make capacity useRing) s := by
  have hcounted : ∀ u, Reach step (fun s a => s.untimed a = true) (make capacity useRing) u →
      Counted (T := T) u.ch := by
    intro u hu
    refine hu.invariant_of (J := fun u => Counted u.ch) (fun _ => linked_of_reach) ?_
      fun _ _ _ hlink hc _ hs => hc.outcome hlink (step_outcome hlink hs)
    intro _
    simp [make, FastChannelImpl.make, RingBuffer.make]
  induction h with
  | refl => exact .refl
  | @tail t u a ht _ hs ih =>
      have ho := step_outcome (linked_of_reach ht) hs
      have hp' : t.ch.pushes < 2 ^ 64 - 1 :=
        Nat.lt_of_le_of_lt (pushes_le_outcome (linked_of_reach ht) ho) hp
      have hsafe : t.ch.wrapSafe = true := by
        have := hcounted t ht hp'
        exact FastChannelImpl.wrapSafe_of_lt (by omega)
      refine .tail (ih hp') ?_ hs
      have hless := timerless_of_reach ht
      cases ho with
      | fire hc hfire => simp [fire, (hless _ _ hc).1] at hfire
      | _ => simp [conserving, hsafe]

end Untimed

/-- The values of the pushes that have not failed, in order of arrival. -/
def pushed (s : ChannelState T) : List (Option T) :=
  (s.calls.filter fun c => c.op == .push && c.success_ != some false).map Call.t

def blockedValues (s : ChannelState T) : List (Option T) :=
  (s.ch.wq_.toList.filterMap fun hook => hook.bind (s.calls[·]?)).map Call.t

/-- The channel is a blocking FIFO: no value is lost, duplicated or reordered, nobody
waits for what is there, a call returns what was decided about it, and after `Close`
nobody is blocked. -/
structure BlockingFifo (s : ChannelState T) : Prop where
  order : s.pushed = s.values .pop ++ s.ch.buffer ++ s.blockedValues
  readers : s.ch.rq_.toList ≠ [] → s.ch.buffer = [] ∧ s.ch.wq_.toList = []
  writers : s.ch.wq_.toList ≠ [] →
    s.ch.buffer.length = s.ch.capacity_.toNat ∧ s.ch.rq_.toList = []
  returned : ∀ c ∈ s.calls, ∀ r, c.phase = .returned r → r = c.success_ ∧ r ≠ none
  closed : s.ch.closed_ = true → s.ch.wq_.toList = [] ∧ s.ch.rq_.toList = [] ∧
    ∀ c ∈ s.calls, c.success_ ≠ none ∧ (c.isOpen = true → s.runq c.task_ = 1)

/-- `Close` fails every blocked call and puts its task into a run queue. -/
def ClosesAll (s : ChannelState T) : Prop :=
  ∀ s', step s .close = some s' → s'.ch.closed_ = true ∧
    ∀ (i : Nat) (c : Call T), s.calls[i]? = some c → c.success_ = none →
      s'.calls[i]? = some { c with success_ := some false } ∧ s'.runq c.task_ = 1

/-- A closed channel turns every call away. -/
def RejectsClosed (s : ChannelState T) : Prop :=
  s.ch.closed_ = true →
    (∀ task v timeout s', step s (.push task v timeout) = some s' →
      s' = s.finish .push task (some v) false) ∧
    ∀ task timeout s', step s (.pop task timeout) = some s' →
      s' = s.finish .pop task none false

theorem rejectsClosed (s : ChannelState T) : s.RejectsClosed := by
  intro hclosed
  constructor
  · intro task v timeout s' hs
    simp only [step, Option.ite_none_right_eq_some, Option.some.injEq] at hs
    rw [← hs.2, push, if_pos hclosed]
  · intro task timeout s' hs
    simp only [step, Option.ite_none_right_eq_some, Option.some.injEq] at hs
    rw [← hs.2, pop, if_pos hclosed]

theorem toList_eq_nil_iff (hlink : s.Linked) (op : ChanOp) :
    (s.ch.waitq op).toList = [] ↔ s.waiting op = [] := by
  rw [(hlink op).toList_eq, List.map_eq_nil_iff]

theorem Conserving.pushed_eq (h : s.Conserving) (hlink : s.Linked) :
    s.pushed = s.values .pop ++ s.ch.buffer ++ s.blockedValues := by
  obtain ⟨xs, hf⟩ := h.fifo
  have hblocked : s.blockedValues = (s.calls.filter (Call.pend .push)).map Call.t := by
    have hw : s.ch.wq_.toList = (s.waiting .push).map some := (hlink .push).toList_eq
    rw [blockedValues, hw, List.filterMap_map, ← filterMap_positions]
    rfl
  have hpushed : s.pushed =
      (s.calls.filter fun c => c.ok .push || c.pend .push).map Call.t := by
    rw [pushed]
    congr 1
    refine List.filter_congr fun c _ => ?_
    cases hs : c.success_ with
    | none => simp [Call.ok, Call.pend, hs]
    | some b => cases b <;> simp [Call.ok, Call.pend, hs]
  rw [hpushed, (hf.turns .push).filter_or fun _ => Call.ok_of_pend, List.map_append, hblocked,
    hf.buffers.buffer_eq, ← hf.values]
  rfl

theorem closesAll (hw : s.Woken) (hl : s.Timerless) (hlink : s.Linked)
    (h : s.Conserving) : s.ClosesAll := by
  intro s' hs
  have ho := step_outcome hlink hs
  have hw' : s'.Woken := by
    refine hw.outcome hlink ?_ ho
    have hlive : ∀ op, s.expired op = false := by
      intro op
      refine List.any_eq_false.mpr fun c hc => ?_
      obtain ⟨i, hi⟩ := List.mem_iff_getElem?.mp hc
      simp [(hl i c hi).2]
    simp [punctual, hlive]
  have hlink' : s'.Linked := Linked.outcome hlink ho
  have hclosed : s'.ch.closed_ = true := by
    cases ho with
    | closed hclosed => exact hclosed
    | close => exact closed_notifyAll (linked_close hlink) rfl
  refine ⟨hclosed, fun i c hc hnone => ?_⟩
  have hopen := (h.asleep hc hnone).1
  have hrule := notifyAll_rule (P := fun u => u.calls.length = s.calls.length)
    (linked_close hlink) rfl fun op u x xs entry q _ hu _ _ _ _ => by
      simpa [decide, wakeupBySelfIo] using hu
  cases ho with
  | closed hc' => simp [hopen] at hc'
  | close =>
      obtain ⟨-, hlen, hempty⟩ := hrule
      have hlt : i < s.calls.length := (List.getElem?_eq_some_iff.mp hc).1
      obtain ⟨c', hc'⟩ : ∃ c', (notifyAll
          { s with ch := { s.ch with closed_ := true } }).calls[i]? = some c' :=
        ⟨_, List.getElem?_eq_getElem (hlen ▸ hlt)⟩
      have hfailed : c' = { c with success_ := some false } := by
        rcases callsFrom_notifyAll hlink hopen i c' hc' with ⟨d, hd, hstep⟩ | ⟨hi, -⟩
        · cases hc.symm.trans hd
          cases hstep with
          | same =>
              have hmem : i ∈ (notifyAll
                  { s with ch := { s.ch with closed_ := true } }).waiting c.op :=
                mem_positions.mpr ⟨c, hc', by simp [Call.pend, hnone]⟩
              rw [hempty] at hmem
              cases hmem
          | serve ha => exact absurd rfl ha
          | fail => rfl
        · omega
      subst hfailed
      refine ⟨hc', ?_⟩
      have hphase := (h.asleep hc hnone).2.1
      have hruns := hw'.own i _ hc' (by simp [Call.isOpen, hphase])
      simp only [Call.Runs, Call.asleep, Option.isNone_some, Bool.false_and,
        Bool.false_eq_true, if_false] at hruns
      exact hruns.1

/-- Without timers the channel is a blocking FIFO that `Close` ends for everybody. -/
theorem blockingFifo_of_untimed (capacity : BitVec 64) (useRing : Bool)
    (hcap : capacity.toNat + 1 < 2 ^ 64) (s : ChannelState T)
    (h : Reach step (fun s a => s.untimed a = true) (make capacity useRing) s)
    (hpushes : s.ch.pushes < 2 ^ 64 - 1) :
    s.BlockingFifo ∧ s.ClosesAll ∧ s.RejectsClosed := by
  have hlink := linked_of_reach h
  have hinv := conserving_of_reach hcap (conserving_of_untimed h hpushes)
  have hw := woken_of_reach (punctual_of_untimed h)
  obtain ⟨xs, hf⟩ := hinv.fifo
  refine ⟨⟨hinv.pushed_eq hlink, fun hr => ?_, fun hwr => ?_, (hinv.conserves hlink).returned,
    fun hclosed => ?_⟩, closesAll hw (timerless_of_reach h) hlink hinv, rejectsClosed s⟩
  · obtain ⟨hxs, hempty⟩ := hf.readers fun h0 => hr ((toList_eq_nil_iff hlink .pop).mpr h0)
    exact ⟨by rw [hf.buffers.buffer_eq, hxs], (toList_eq_nil_iff hlink .push).mpr hempty⟩
  · have hne : s.waiting .push ≠ [] := fun h0 =>
      hwr ((toList_eq_nil_iff hlink .push).mpr h0)
    refine ⟨by rw [hf.buffers.buffer_eq, hf.writers hne], ?_⟩
    exact (toList_eq_nil_iff hlink .pop).mpr (hf.no_readers hne)
  · refine ⟨(toList_eq_nil_iff hlink .push).mpr (hf.closed hclosed _),
      (toList_eq_nil_iff hlink .pop).mpr (hf.closed hclosed _), fun c hc => ?_⟩
    obtain ⟨i, hi⟩ := List.mem_iff_getElem?.mp hc
    have hdecided : c.success_ ≠ none := by
      intro hnone
      simp [(hinv.asleep hi hnone).1] at hclosed
    refine ⟨hdecided, fun hopen => ?_⟩
    have hruns := hw.own i c hi hopen
    have hawake : c.asleep = false := by simp [Call.asleep, hdecided]
    simp only [Call.Runs, hawake, Bool.false_eq_true, if_false] at hruns
    exact hruns.1

/-- Two writers and a reader on a ring buffer of one slot. -/
theorem blockingFifo_one_slot :
    ∃ s : ChannelState Nat,
      run step (fun s a => s.untimed a = true) (make 1 true)
        [.push 1 7 0, .push 2 8 (-1), .pop 3 0, .resume 1, .pop 3 (-1), .pop 1 (-1), .close]
          = some s ∧ s.ch.pushes < 2 ^ 64 - 1 ∧
        s.BlockingFifo ∧ s.ClosesAll ∧ s.RejectsClosed :=
  ⟨_, rfl, by decide, blockingFifo_of_untimed 1 true (by decide) _ (reach_of_run
    ([.push 1 7 0, .push 2 8 (-1), .pop 3 0, .resume 1, .pop 3 (-1), .pop 1 (-1), .close])
    rfl) (by decide)⟩

end ChannelState

end CppGo.Sync
