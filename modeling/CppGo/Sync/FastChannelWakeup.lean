import CppGo.Sync.FastChannelSections

/-!
# Waking a blocked caller once

A blocked call can be woken by a notifier, by `Close` and by the callback of its
own timer.  `Woken` fixes how often its task is in a run queue at every moment.
It is kept by every step as long as a callback starts only for an entry that
nobody has decided, and nobody uses a queue that holds an entry whose callback
has started.
-/

namespace CppGo.Sync

open CppGo.Lib.Arrivals CppGo.Lib.Machine

namespace Call

variable {T : Type*}

def asleep (c : Call T) : Bool := c.success_.isNone && c.timer != .done

/-- What the locals of a call say about each other. -/
structure Sound (c : Call T) : Prop where
  flag : c.isTimeOut = true ↔ c.timer = .begun ∨ c.timer = .done
  begun : c.timer = .begun → c.phase = .waiting ∧ c.success_ = none
  decided : c.success_ ≠ none → c.isTimeOut = false
  stopping : c.phase = .stopping → c.success_ ≠ none
  immediate : c.blocked = false → c.isOpen = false
  expired : c.isOpen = false → c.success_ = none → c.timer = .done
  once : c.isOpen = false → c.blocked = true → c.wakes = 1
  result : ∀ r, c.phase = .returned r → c.success_ = some true → r = some true

/-- How often the task of an open call is in a run queue, and how often it was
woken since its suspension. -/
def Runs (c : Call T) (runq wakes : Nat) : Prop :=
  if c.asleep then runq = 0 ∧ wakes = 0 else runq = 1 ∧ wakes = 1

end Call

namespace ChannelState

variable {T : Type*} {s s' : ChannelState T}

/-- Every task is in exactly one run queue, unless it is blocked and was not woken. -/
structure Woken (s : ChannelState T) : Prop where
  sound : ∀ (i : Nat) (c : Call T), s.calls[i]? = some c → c.Sound
  own : ∀ (i : Nat) (c : Call T), s.calls[i]? = some c → c.isOpen = true →
    c.Runs (s.runq c.task_) (s.wakes c.task_)
  idle : ∀ task, (∀ (i : Nat) (c : Call T), s.calls[i]? = some c → c.task_ = task → c.isOpen = false) →
    s.runq task = 1
  one : ∀ (i j : Nat) (c d : Call T), s.calls[i]? = some c → s.calls[j]? = some d → c.isOpen = true →
    d.isOpen = true → c.task_ = d.task_ → i = j

/-- The task is in no call, as `isFree` tests it. -/
def Idle (s : ChannelState T) (task : Nat) : Prop :=
  ∀ (i : Nat) (c : Call T), s.calls[i]? = some c → c.task_ = task → c.isOpen = false

theorem idle_of_isFree {task : Nat} (h : s.isFree task = true) : s.Idle task := by
  simp only [isFree, Bool.and_eq_true, List.all_eq_true] at h
  intro i c hc htask
  have := h.2 c (List.mem_of_getElem? hc)
  simpa [htask] using this

namespace Woken

theorem make (capacity : BitVec 64) (useRing : Bool) :
    (ChannelState.make capacity useRing : ChannelState T).Woken where
  sound := by simp [ChannelState.make]
  own := by simp [ChannelState.make]
  idle := by simp [ChannelState.make]
  one := by simp [ChannelState.make]

theorem runq_le (h : s.Woken) (task : Nat) : s.runq task ≤ 1 := by
  by_cases hidle : s.Idle task
  · exact (h.idle task hidle).le
  · simp only [Idle, not_forall] at hidle
    obtain ⟨i, c, hc, rfl, hopen⟩ := hidle
    have hruns := h.own i c hc (by simpa using hopen)
    unfold Call.Runs at hruns
    split at hruns <;> omega

theorem amend {x : Nat} {c c' : Call T} (h : s.Woken) (hx : s.calls[x]? = some c)
    (hopen : c.isOpen = true) (hcalls : s'.calls = s.calls.set x c')
    (htask : c'.task_ = c.task_) (hsound : c'.Sound)
    (hother : ∀ task ≠ c.task_, s'.runq task = s.runq task ∧ s'.wakes task = s.wakes task)
    (hruns : c'.isOpen = true → c'.Runs (s'.runq c.task_) (s'.wakes c.task_))
    (hret : c'.isOpen = false → s'.runq c.task_ = 1) : s'.Woken := by
  have hget : ∀ {i : Nat} {d : Call T}, s'.calls[i]? = some d ↔
      i = x ∧ d = c' ∨ i ≠ x ∧ s.calls[i]? = some d := by
    intro i d
    rw [hcalls]
    exact getElem?_set_iff hx
  refine ⟨fun i d hd => ?_, fun i d hd hdo => ?_, fun task hidle => ?_, ?_⟩
  · rcases hget.mp hd with ⟨-, rfl⟩ | ⟨-, hd'⟩
    · exact hsound
    · exact h.sound i d hd'
  · rcases hget.mp hd with ⟨-, rfl⟩ | ⟨hix, hd'⟩
    · rw [htask]
      exact hruns hdo
    · have hne : d.task_ ≠ c.task_ := fun he => hix (h.one i x d c hd' hx hdo hopen he)
      rw [(hother _ hne).1, (hother _ hne).2]
      exact h.own i d hd' hdo
  · by_cases ht : task = c.task_
    · subst ht
      exact hret (hidle x c' (hget.mpr (.inl ⟨rfl, rfl⟩)) htask)
    · rw [(hother task ht).1]
      refine h.idle task fun i d hd hdt => hidle i d (hget.mpr (.inr ⟨?_, hd⟩)) hdt
      rintro rfl
      rw [hx] at hd
      cases hd
      exact ht hdt.symm
  · intro i j d e hd he hdo heo hde
    rcases hget.mp hd with ⟨rfl, rfl⟩ | ⟨hix, hd'⟩ <;>
      rcases hget.mp he with ⟨rfl, rfl⟩ | ⟨hjx, he'⟩
    · rfl
    · exact (h.one j i e c he' hx heo hopen (by rw [← hde, htask])).symm
    · exact h.one i j d c hd' hx hdo hopen (by rw [hde, htask])
    · exact h.one i j d e hd' he' hdo heo hde

theorem enter {c : Call T} (h : s.Woken) (hfree : s.Idle c.task_)
    (hcalls : s'.calls = s.calls ++ [c]) (hsound : c.Sound)
    (hother : ∀ task ≠ c.task_, s'.runq task = s.runq task ∧ s'.wakes task = s.wakes task)
    (hruns : c.isOpen = true → c.Runs (s'.runq c.task_) (s'.wakes c.task_))
    (hret : c.isOpen = false → s'.runq c.task_ = 1) : s'.Woken := by
  have hget : ∀ {i : Nat} {d : Call T}, s'.calls[i]? = some d ↔
      s.calls[i]? = some d ∨ i = s.calls.length ∧ d = c := by
    intro i d
    rw [hcalls]
    exact getElem?_concat_iff
  have hbusy : ∀ {i : Nat} {d : Call T}, s.calls[i]? = some d → d.isOpen = true → d.task_ ≠ c.task_ := by
    intro i d hd hdo hdt
    rw [hfree i d hd hdt] at hdo
    cases hdo
  refine ⟨fun i d hd => ?_, fun i d hd hdo => ?_, fun task hidle => ?_, ?_⟩
  · rcases hget.mp hd with hd' | ⟨-, rfl⟩
    · exact h.sound i d hd'
    · exact hsound
  · rcases hget.mp hd with hd' | ⟨-, rfl⟩
    · have hne := hbusy hd' hdo
      rw [(hother _ hne).1, (hother _ hne).2]
      exact h.own i d hd' hdo
    · exact hruns hdo
  · by_cases ht : task = c.task_
    · subst ht
      exact hret (hidle _ c (hget.mpr (.inr ⟨rfl, rfl⟩)) rfl)
    · rw [(hother task ht).1]
      exact h.idle task fun i d hd => hidle i d (hget.mpr (.inl hd))
  · intro i j d e hd he hdo heo hde
    rcases hget.mp hd with hd' | ⟨rfl, rfl⟩ <;> rcases hget.mp he with he' | ⟨rfl, rfl⟩
    · exact h.one i j d e hd' he' hdo heo hde
    · exact absurd hde (hbusy hd' hdo)
    · exact absurd hde.symm (hbusy he' heo)
    · rfl

theorem finish {op : ChanOp} {task : Nat} {t : Option T} {ret : Bool} (h : s.Woken)
    (hfree : s.Idle task) : (s.finish op task t ret).Woken := by
  refine h.enter (c := Call.finished op task t ret) hfree rfl ?_ (fun _ _ => ⟨rfl, rfl⟩)
    (by simp [Call.finished, Call.isOpen]) fun _ => h.idle task hfree
  constructor <;> simp [Call.finished, Call.isOpen]

theorem waite {op : ChanOp} {task : Nat} {t : Option T} {timeout : Int} (h : s.Woken)
    (hfree : s.Idle task) : (s.waite op task t timeout).Woken := by
  have hone := h.idle task hfree
  refine h.enter (c := Call.entering op task t timeout) hfree rfl ?_ ?_ ?_
    (by simp [Call.entering, Call.isOpen])
  · constructor <;> by_cases ht : timeout > 0 <;> simp [Call.entering, Call.isOpen, ht]
  · intro task' hne
    have hne : task' ≠ task := hne
    simp [ChannelState.waite, suspendBySelfIo, Function.update_of_ne hne]
  · intro _
    by_cases ht : timeout > 0 <;>
      simp [Call.entering, Call.Runs, Call.asleep, ChannelState.waite, suspendBySelfIo, hone, ht]

theorem decide {x : Nat} {entry : Call T} {ch : FastChannelImpl T} {value : Option T}
    {b : Bool} (h : s.Woken) (hentry : s.calls[x]? = some entry)
    (hnone : entry.success_ = none) (hlive : entry.isTimeOut = false) :
    (s.decide ch x entry value b).Woken := by
  have hs := h.sound x entry hentry
  have hnot : ¬ (entry.timer = .begun ∨ entry.timer = .done) := by
    rw [← hs.flag, hlive]
    simp
  have hopen : entry.isOpen = true := by
    rw [← Bool.not_eq_false]
    exact fun hclosed => hnot (.inr (hs.expired hclosed hnone))
  have hphase : entry.phase = .waiting := by
    have hstop : entry.phase ≠ .stopping := fun hp => hs.stopping hp hnone
    cases hp : entry.phase with
    | waiting => rfl
    | stopping => exact absurd hp hstop
    | returned r => simp [Call.isOpen, hp] at hopen
  have hruns := h.own x entry hentry hopen
  have hasleep : entry.asleep = true := by
    simp only [Call.asleep, hnone]
    simpa using fun hd => hnot (.inr hd)
  simp only [Call.Runs, hasleep, if_true] at hruns
  refine h.amend hentry hopen rfl rfl ?_ ?_ ?_ ?_
  · constructor
    case flag => simpa [hlive] using hnot
    case begun => simpa using fun hb => hnot (.inl hb)
    case decided => simpa using hlive
    case stopping => simp
    case immediate => simpa [Call.isOpen, hphase] using hs.immediate
    case expired => simp
    case once => simp [Call.isOpen, hphase]
    case result => simp [hphase]
  · intro task hne
    simp [ChannelState.decide, wakeupBySelfIo, Function.update_of_ne hne]
  · intro _
    simp [Call.Runs, Call.asleep, ChannelState.decide, wakeupBySelfIo, hruns]
  · simp [Call.isOpen, hphase]

theorem fire {x : Nat} {c c' : Call T} (h : s.Woken) (hx : s.calls[x]? = some c)
    (hwait : c.phase = .waiting) (hnone : c.success_ = none)
    (hfire : ChannelState.fire c = some c') :
    Woken { s with calls := s.calls.set x c' } := by
  have hs := h.sound x c hx
  unfold ChannelState.fire at hfire
  split at hfire
  case isFalse => cases hfire
  case isTrue harmed =>
    cases hfire
    have hopen : c.isOpen = true := by simp [Call.isOpen, hwait]
    have hruns := h.own x c hx hopen
    refine h.amend hx hopen rfl rfl ?_ (fun _ _ => ⟨rfl, rfl⟩) (fun _ => ?_) ?_
    · constructor
      case flag => simp
      case begun => exact fun _ => ⟨hwait, hnone⟩
      case decided => simp [hnone]
      case stopping => simp [hwait]
      case immediate => simpa [Call.isOpen, hwait] using hs.immediate
      case expired => simp [Call.isOpen, hwait]
      case once => simp [Call.isOpen, hwait]
      case result => simp [hwait]
    · simpa [Call.Runs, Call.asleep, hnone, harmed] using hruns
    · simp [Call.isOpen, hwait]

theorem fireWake {x : Nat} {c : Call T} (h : s.Woken) (hx : s.calls[x]? = some c)
    (hbegun : c.timer = .begun) :
    (wakeupBySelfIo { s with calls := s.calls.set x { c with timer := .done } }
      c.task_).Woken := by
  have hs := h.sound x c hx
  obtain ⟨hwait, hnone⟩ := hs.begun hbegun
  have hopen : c.isOpen = true := by simp [Call.isOpen, hwait]
  have hruns := h.own x c hx hopen
  simp only [Call.Runs, Call.asleep, hnone, hbegun] at hruns
  refine h.amend hx hopen rfl rfl ?_ ?_ ?_ ?_
  · constructor
    case flag => simpa using hs.flag.mpr (.inl hbegun)
    case begun => simp
    case decided => simp [hnone]
    case stopping => simp [hwait]
    case immediate => simpa [Call.isOpen, hwait] using hs.immediate
    case expired => simp
    case once => simp [Call.isOpen, hwait]
    case result => simp [hwait]
  · intro task hne
    simp [wakeupBySelfIo, Function.update_of_ne hne]
  · intro _
    have : s.runq c.task_ = 0 ∧ s.wakes c.task_ = 0 := by simpa using hruns
    simp [Call.Runs, Call.asleep, wakeupBySelfIo, this]
  · simp [Call.isOpen, hwait]

theorem resume {x : Nat} {c : Call T} (h : s.Woken) (hx : s.calls[x]? = some c)
    (hwait : c.phase = .waiting) (hrunq : 1 ≤ s.runq c.task_) :
    Woken { s with calls := s.calls.set x (resumed c (s.wakes c.task_)) } := by
  have hs := h.sound x c hx
  have hopen : c.isOpen = true := by simp [Call.isOpen, hwait]
  have hruns := h.own x c hx hopen
  have hawake : c.asleep = false := by
    rw [← Bool.not_eq_true]
    intro ha
    simp only [Call.Runs, ha, if_true] at hruns
    omega
  simp only [Call.Runs, hawake, Bool.false_eq_true, if_false] at hruns
  have hcause : c.success_ = none → c.timer = .done := by
    intro hnone
    simpa [Call.asleep, hnone] using hawake
  have hblocked : c.blocked = true := by
    rw [← Bool.not_eq_false]
    intro hb
    rw [hs.immediate hb] at hopen
    cases hopen
  have htask : (resumed c (s.wakes c.task_)).task_ = c.task_ := by
    unfold resumed
    split_ifs <;> rfl
  refine h.amend hx hopen rfl htask ?_ (fun _ _ => ⟨rfl, rfl⟩) (fun _ => ?_)
    (fun _ => hruns.1)
  · unfold resumed
    split_ifs with htimer hto
    · refine ⟨hs.flag, by simp [htimer], hs.decided, by simp, by simp [hblocked], ?_,
        fun _ _ => hruns.2, ?_⟩
      · exact fun _ => hcause
      · exact fun r hr hok => by cases hr; exact hok
    · have hnone : c.success_ = none := by
        by_contra hne
        rw [hs.decided hne] at hto
        cases hto
      have hdone := hcause hnone
      refine ⟨hs.flag, by simp [hdone], hs.decided, by simp, by simp [hblocked], ?_,
        fun _ _ => hruns.2, by simp [hnone]⟩
      exact fun _ => hcause
    · have hnot : c.timer ≠ .begun ∧ c.timer ≠ .done := by
        refine ⟨fun hb => hto (hs.flag.mpr (.inl hb)), fun hd => hto (hs.flag.mpr (.inr hd))⟩
      have hdec : c.success_ ≠ none := fun hnone => hnot.2 (hcause hnone)
      exact ⟨hs.flag, fun hb => absurd hb hnot.1, hs.decided, fun _ => hdec,
        by simp [hblocked], by simp [Call.isOpen], by simp [Call.isOpen], by simp⟩
  · have hsame : (resumed c (s.wakes c.task_)).asleep = false := by
      rw [← hawake]
      unfold resumed
      split_ifs <;> rfl
    simpa [Call.Runs, hsame] using hruns

theorem stopTimer {x : Nat} {c : Call T} (h : s.Woken) (hx : s.calls[x]? = some c)
    (hstop : c.phase = .stopping) :
    Woken { s with calls := s.calls.set x (timerStopped c (s.wakes c.task_)) } := by
  have hs := h.sound x c hx
  have hopen : c.isOpen = true := by simp [Call.isOpen, hstop]
  have hdec := hs.stopping hstop
  have hruns := h.own x c hx hopen
  have hawake : c.asleep = false := by simp [Call.asleep, hdec]
  simp only [Call.Runs, hawake, Bool.false_eq_true, if_false] at hruns
  have hnot : c.timer ≠ .begun ∧ c.timer ≠ .done := by
    have hflag : ¬ (c.timer = .begun ∨ c.timer = .done) := by
      rw [← hs.flag, hs.decided hdec]
      simp
    exact not_or.mp hflag
  refine h.amend hx hopen rfl rfl ?_ (fun _ _ => ⟨rfl, rfl⟩) (by simp [timerStopped, Call.isOpen])
    (fun _ => hruns.1)
  constructor
  case flag =>
    simp only [timerStopped, hs.decided hdec]
    split_ifs <;> simp [hnot]
  case begun =>
    simp only [timerStopped]
    split_ifs <;> simp [hnot]
  case decided => exact fun _ => hs.decided hdec
  case stopping => simp [timerStopped]
  case immediate => simp [timerStopped, Call.isOpen]
  case expired => exact fun _ hnone => absurd hnone hdec
  case once => exact fun _ _ => hruns.2
  case result =>
    intro r hr hok
    simp only [timerStopped, CallPhase.returned.injEq] at hr
    rw [← hr]
    exact hok

end Woken

/-- Some entry in the queue belongs to a timer whose callback has started. -/
def expired (s : ChannelState T) (op : ChanOp) : Bool :=
  s.calls.any fun c => c.pend op && c.isTimeOut

def uses (s : ChannelState T) : ChanEvent T → ChanOp → Bool
  | .push _ _ _, .pop =>
      !s.ch.closed_ && (s.ch.capacity_ == 0 || s.ch.isEmpty)
  | .push _ _ timeout, .push =>
      !s.ch.closed_ && timeout != 0 &&
        if s.ch.capacity_ == 0 then (s.waiting .pop).isEmpty else s.ch.isFull
  | .pop _ _, .push =>
      !s.ch.closed_ && (s.ch.capacity_ == 0 || s.ch.size == s.ch.capacity_)
  | .pop _ timeout, .pop =>
      !s.ch.closed_ && timeout != 0 &&
        if s.ch.capacity_ == 0 then (s.waiting .push).isEmpty else s.ch.isEmpty
  | .close, _ => !s.ch.closed_
  | _, _ => false

/-- A timer's callback starts only while its entry is queued and undecided, and a
queue with an entry whose callback has started is not used any more. -/
def punctual (s : ChannelState T) : ChanEvent T → Bool
  | .fire i => (s.calls[i]?).any fun c => c.phase == .waiting && c.success_.isNone
  | e => [ChanOp.push, .pop].all fun op => !s.uses e op || !s.expired op

theorem not_expired {a : ChanEvent T} {op : ChanOp} (h : s.punctual a = true)
    (ha : ∀ i, a ≠ .fire i) (hu : s.uses a op = true) : s.expired op = false := by
  have hall : ([ChanOp.push, .pop].all fun op => !s.uses a op || !s.expired op) = true := by
    cases a <;> first | exact h | exact absurd rfl (ha _)
  have := List.all_eq_true.mp hall op (by cases op <;> simp)
  simpa [hu] using this

theorem live_of_not_expired {op : ChanOp} {x : Nat} {entry : Call T}
    (h : s.expired op = false) (hentry : s.calls[x]? = some entry)
    (hpend : entry.pend op = true) : entry.isTimeOut = false := by
  have := List.any_eq_false.mp h entry (List.mem_of_getElem? hentry)
  simpa [hpend] using this

theorem Idle.decide {task x : Nat} {entry : Call T} {ch : FastChannelImpl T}
    {value : Option T} {b : Bool} (h : s.Idle task) (hentry : s.calls[x]? = some entry) :
    (s.decide ch x entry value b).Idle task := by
  intro i c hc htask
  rcases (getElem?_set_iff hentry).mp hc with ⟨-, rfl⟩ | ⟨-, hc'⟩
  · exact h x entry hentry htask
  · exact h i c hc' htask

theorem Woken.push_outcome {task : Nat} {v : T} {timeout : Int} (h : s.Woken)
    (hfree : s.Idle task) (ho : PushOutcome s task v timeout s')
    (hp : s.uses (.push task v timeout) .pop = true → s.expired .pop = false) :
    s'.Woken := by
  cases ho with
  | fails => exact h.finish hfree
  | blocks => exact h.waite hfree
  | hands hopen hcap hx hentry =>
      have hpend := pend_head hx hentry
      have hlive := live_of_not_expired (hp (by simp [uses, hopen, hcap])) hentry hpend
      exact (h.decide hentry (Call.success_of_pend hpend) hlive).finish (hfree.decide hentry)
  | buffers => exact Woken.finish (s := { s with ch := _ }) ⟨h.sound, h.own, h.idle, h.one⟩ hfree
  | relays hopen hcap hpush hsize hx hentry =>
      have hpend := pend_head hx hentry
      have hempty := FastChannelImpl.isEmpty_of_push hpush hsize
      have hlive := live_of_not_expired (hp (by simp [uses, hopen, hempty])) hentry hpend
      exact (h.decide hentry (Call.success_of_pend hpend) hlive).finish (hfree.decide hentry)

theorem Woken.pop_outcome {task : Nat} {timeout : Int} (h : s.Woken)
    (hfree : s.Idle task) (ho : PopOutcome s task timeout s')
    (hp : s.uses (.pop task timeout) .push = true → s.expired .push = false) :
    s'.Woken := by
  cases ho with
  | fails => exact h.finish hfree
  | blocks => exact h.waite hfree
  | takes hopen hcap hx hentry =>
      have hpend := pend_head hx hentry
      have hlive := live_of_not_expired (hp (by simp [uses, hopen, hcap])) hentry hpend
      exact (h.decide hentry (Call.success_of_pend hpend) hlive).finish (hfree.decide hentry)
  | unbuffers => exact Woken.finish (s := { s with ch := _ }) ⟨h.sound, h.own, h.idle, h.one⟩ hfree
  | refills hopen hcap hpop hsize hx hentry =>
      have hpend := pend_head hx hentry
      have hfull : s.ch.size = s.ch.capacity_ := by
        rw [FastChannelImpl.size_pop hpop, hsize, (FastChannelImpl.pop_frame hpop).capacity]
        exact sub_add_cancel _ _
      have hlive := live_of_not_expired (hp (by simp [uses, hopen, hfull])) hentry hpend
      exact (h.decide hentry (Call.success_of_pend hpend) hlive).finish (hfree.decide hentry)

theorem Woken.notifyAll (h : s.Woken) (hlink : s.Linked)
    (hlive : ∀ op, s.expired op = false) : s.notifyAll.Woken := by
  have hrule := notifyAll_rule (P := fun u => u.Woken ∧ ∀ op, u.expired op = false) hlink
    ⟨h, hlive⟩ ?_
  · exact hrule.2.1.1
  · intro op u x xs entry q _ hu _ hentry hpend _
    refine ⟨hu.1.decide hentry (Call.success_of_pend hpend)
      (live_of_not_expired (hu.2 op) hentry hpend), fun op' => ?_⟩
    refine List.any_eq_false.mpr fun c hc => ?_
    rcases List.mem_or_eq_of_mem_set hc with hmem | rfl
    · exact List.any_eq_false.mp (hu.2 op') c hmem
    · simp [Call.pend]

theorem Woken.outcome {a : ChanEvent T} (h : s.Woken) (hlink : s.Linked)
    (hp : s.punctual a = true) (ho : StepOutcome s a s') : s'.Woken := by
  cases ho with
  | push hfree ho =>
      exact h.push_outcome (idle_of_isFree hfree) ho (not_expired hp (by simp))
  | pop hfree ho =>
      exact h.pop_outcome (idle_of_isFree hfree) ho (not_expired hp (by simp))
  | closed => exact h
  | close hopen =>
      have hlive : ∀ op, s.expired op = false := fun op =>
        not_expired hp (by simp) (by simp [uses, hopen])
      exact Woken.notifyAll ⟨h.sound, h.own, h.idle, h.one⟩ (linked_close hlink) hlive
  | fire hc hfire =>
      simp only [punctual, hc, Option.any_some, Bool.and_eq_true, beq_iff_eq,
        Option.isNone_iff_eq_none] at hp
      exact h.fire hc hp.1 hp.2 hfire
  | fireWake hc hbegun => exact h.fireWake hc hbegun
  | resume hc hwait hrunq => exact h.resume hc hwait hrunq
  | stopTimer hc hstop => exact h.stopTimer hc hstop

theorem woken_of_reach {capacity : BitVec 64} {useRing : Bool}
    (h : Reach step (fun s a => s.punctual a = true) (make capacity useRing) s) : s.Woken :=
  h.invariant_of (fun _ => linked_of_reach) (Woken.make capacity useRing)
    fun _ _ _ hlink hw hp hs => hw.outcome hlink hp (step_outcome hlink hs)

/-- What the wake-ups of a channel have to satisfy: no task is in a run queue twice,
a blocked call is woken at most once before it returns and exactly once when it
does, and it returns true if a notifier moved a value to or from its entry. -/
structure ResumedOnce (s : ChannelState T) : Prop where
  queued : ∀ task, s.runq task ≤ 1
  waiting : ∀ c ∈ s.calls, c.blocked = true → c.isOpen = true → s.wakes c.task_ ≤ 1
  returned : ∀ c ∈ s.calls, c.blocked = true → c.isOpen = false → c.wakes = 1
  transferred : ∀ c ∈ s.calls, c.blocked = true → c.success_ = some true →
    ∀ ret, c.phase = .returned ret → ret = some true

/-- A blocked caller is resumed exactly once in every punctual run. -/
theorem resumedOnce_of_punctual (capacity : BitVec 64) (useRing : Bool)
    (s : ChannelState T)
    (h : Reach step (fun s a => s.punctual a = true) (make capacity useRing) s) :
    s.ResumedOnce := by
  have hw := woken_of_reach h
  refine ⟨hw.runq_le, fun c hc _ hopen => ?_, fun c hc hb hret => ?_, fun c hc _ hok ret hr => ?_⟩
  · obtain ⟨i, hi⟩ := List.mem_iff_getElem?.mp hc
    have hruns := hw.own i c hi hopen
    unfold Call.Runs at hruns
    split at hruns <;> omega
  · obtain ⟨i, hi⟩ := List.mem_iff_getElem?.mp hc
    exact (hw.sound i c hi).once hret hb
  · obtain ⟨i, hi⟩ := List.mem_iff_getElem?.mp hc
    exact (hw.sound i c hi).result ret hr hok

/-- A timed `Push` into a channel without buffer whose timer expires. -/
theorem resumedOnce_of_timeout :
    ∃ s : ChannelState Nat,
      run step (fun s a => s.punctual a = true) (make 0 true)
        [.push 1 7 10, .fire 0, .fireWake 0, .resume 0] = some s ∧ s.ResumedOnce :=
  ⟨_, rfl, resumedOnce_of_punctual 0 true _ (reach_of_run
    ([.push 1 7 10, .fire 0, .fireWake 0, .resume 0]) rfl)⟩

/-- The timer of a call that a notifier has already decided wakes its task once more. -/
theorem not_resumedOnce_after_late_timer :
    ¬ ∀ (capacity : BitVec 64) (useRing : Bool) (s : ChannelState Nat),
      Reach step Free (make capacity useRing) s → s.ResumedOnce := by
  intro hall
  obtain ⟨s, hrun, hrunq⟩ : ∃ s : ChannelState Nat,
      run step Free (make 0 true) [.push 1 7 10, .pop 2 0, .fire 0, .fireWake 0] = some s ∧
        s.runq 1 = 2 := ⟨_, rfl, rfl⟩
  have := (hall 0 true s (reach_of_run _ hrun)).queued 1
  omega

end ChannelState

end CppGo.Sync
