import CppGo.Sync.FastChannelSections

/-!
# What a step does to the calls and to the channel

A step changes at most one call that entered before, or all undecided ones at
`Close`, and lets at most one call enter.  Predicates on single calls and on the
channel are carried through runs by these two rules.
-/

namespace CppGo.Sync

open CppGo.Lib.Arrivals

namespace ChannelState

variable {T : Type*} {s s' : ChannelState T}

inductive CallStep (s : ChannelState T) : ChanEvent T → Call T → Call T → Prop
  | same {a : ChanEvent T} {c : Call T} : CallStep s a c c
  | serve {a : ChanEvent T} {c : Call T} {op : ChanOp} {value : Option T}
      (ha : a ≠ .close) (hopen : s.ch.closed_ = false) (hpend : c.pend op = true) :
      CallStep s a c { c with t := value, success_ := some true }
  | fail {c : Call T} {op : ChanOp} (hopen : s.ch.closed_ = false) (hpend : c.pend op = true) :
      CallStep s .close c { c with success_ := some false }
  | fire {i : Nat} {c : Call T} (hc : s.calls[i]? = some c) (harmed : c.timer = .armed) :
      CallStep s (.fire i) c { c with timer := .begun, isTimeOut := true }
  | fireWake {i : Nat} {c : Call T} (hbegun : c.timer = .begun) :
      CallStep s (.fireWake i) c { c with timer := .done }
  | resume {i : Nat} {c : Call T} (hwait : c.phase = .waiting) (hrunq : 1 ≤ s.runq c.task_) :
      CallStep s (.resume i) c (resumed c (s.wakes c.task_))
  | stopTimer {i : Nat} {c : Call T} (hstop : c.phase = .stopping) :
      CallStep s (.stopTimer i) c (timerStopped c (s.wakes c.task_))

inductive NewCall : ChanEvent T → Call T → Prop
  | finish {a : ChanEvent T} {op : ChanOp} {task : Nat} {t : Option T} {ret : Bool}
      (h : op = .pop → ret = false → t = none) : NewCall a (Call.finished op task t ret)
  | push {task : Nat} {v : T} {timeout : Int} :
      NewCall (.push task v timeout) (Call.entering .push task (some v) timeout)
  | pop {task : Nat} {timeout : Int} :
      NewCall (.pop task timeout) (Call.entering .pop task none timeout)

def CallsFrom (s : ChannelState T) (a : ChanEvent T) (s' : ChannelState T) : Prop :=
  ∀ (i : Nat) (c' : Call T), s'.calls[i]? = some c' →
    (∃ c, s.calls[i]? = some c ∧ CallStep s a c c') ∨ i = s.calls.length ∧ NewCall a c'

theorem callsFrom_concat {a : ChanEvent T} {c : Call T} (hcalls : s'.calls = s.calls ++ [c])
    (hnew : NewCall a c) : s.CallsFrom a s' := by
  intro i c' hc'
  rw [hcalls] at hc'
  rcases getElem?_concat_iff.mp hc' with hold | ⟨hi, rfl⟩
  · exact .inl ⟨c', hold, .same⟩
  · exact .inr ⟨hi, hnew⟩

theorem callsFrom_set {a : ChanEvent T} {x : Nat} {c d : Call T} (hx : s.calls[x]? = some c)
    (hcalls : s'.calls = s.calls.set x d) (hstep : CallStep s a c d) : s.CallsFrom a s' := by
  intro i c' hc'
  rw [hcalls] at hc'
  rcases (getElem?_set_iff hx).mp hc' with ⟨rfl, rfl⟩ | ⟨-, hold⟩
  · exact .inl ⟨c, hx, hstep⟩
  · exact .inl ⟨c', hold, .same⟩

theorem callsFrom_serve {a : ChanEvent T} {op op' : ChanOp} {x task : Nat} {xs : List Nat}
    {entry : Call T} {ch : FastChannelImpl T} {value t : Option T} (ha : a ≠ .close)
    (hopen : s.ch.closed_ = false) (hx : s.waiting op = x :: xs)
    (hentry : s.calls[x]? = some entry) :
    s.CallsFrom a ((s.decide ch x entry value true).finish op' task t true) := by
  have hlen : (s.decide ch x entry value true).calls.length = s.calls.length := by
    simp [decide, wakeupBySelfIo]
  intro i c' hc'
  rcases getElem?_concat_iff.mp hc' with hold | ⟨hi, rfl⟩
  · rcases (getElem?_set_iff hentry).mp hold with ⟨rfl, rfl⟩ | ⟨-, hold⟩
    · exact .inl ⟨entry, hentry, .serve ha hopen (pend_head hx hentry)⟩
    · exact .inl ⟨c', hold, .same⟩
  · exact .inr ⟨hi.trans hlen, .finish (by simp)⟩

theorem callsFrom_notifyAll (hlink : s.Linked) (hopen : s.ch.closed_ = false) :
    s.CallsFrom .close (notifyAll { s with ch := { s.ch with closed_ := true } }) := by
  have hrule := notifyAll_rule
    (P := fun u => ∀ (i : Nat) (c' : Call T), u.calls[i]? = some c' →
      ∃ c, s.calls[i]? = some c ∧ CallStep s .close c c')
    (linked_close hlink) (fun i c' hc' => ⟨c', hc', .same⟩) ?_
  · exact fun i c' hc' => .inl (hrule.2.1 i c' hc')
  · intro op u x xs entry q _ hu _ hentry hpend _ i c' hc'
    rcases (getElem?_set_iff hentry).mp hc' with ⟨rfl, rfl⟩ | ⟨-, hold⟩
    · obtain ⟨c, hc, hstep⟩ := hu i entry hentry
      cases hstep with
      | same => exact ⟨entry, hc, .fail hopen hpend⟩
      | serve => simp [Call.pend] at hpend
      | fail => simp [Call.pend] at hpend
    · exact hu i c' hold

theorem calls_outcome {a : ChanEvent T} (hlink : s.Linked) (ho : StepOutcome s a s') :
    s.CallsFrom a s' := by
  cases ho with
  | push _ ho =>
      cases ho with
      | fails => exact callsFrom_concat rfl (.finish (by simp))
      | blocks => exact callsFrom_concat rfl .push
      | hands hopen _ hx hentry => exact callsFrom_serve (by simp) hopen hx hentry
      | buffers => exact callsFrom_concat rfl (.finish (by simp))
      | relays hopen _ _ _ hx hentry => exact callsFrom_serve (by simp) hopen hx hentry
  | pop _ ho =>
      cases ho with
      | fails => exact callsFrom_concat rfl (.finish (by simp))
      | blocks => exact callsFrom_concat rfl .pop
      | takes hopen _ hx hentry => exact callsFrom_serve (by simp) hopen hx hentry
      | unbuffers => exact callsFrom_concat rfl (.finish (by simp))
      | refills hopen _ _ _ hx hentry => exact callsFrom_serve (by simp) hopen hx hentry
  | closed => exact fun i c' hc' => .inl ⟨c', hc', .same⟩
  | close hopen => exact callsFrom_notifyAll hlink hopen
  | fire hc hfire =>
      obtain ⟨harmed, rfl⟩ := fire_eq hfire
      exact callsFrom_set hc rfl (.fire hc harmed)
  | fireWake hc hbegun => exact callsFrom_set hc rfl (.fireWake hbegun)
  | resume hc hwait hrunq => exact callsFrom_set hc rfl (.resume hwait hrunq)
  | stopTimer hc hstop => exact callsFrom_set hc rfl (.stopTimer hstop)

/-- What a step keeps about the channel, if the buffer accesses, the queues and
`Close` keep it. -/
theorem channel_outcome {R : FastChannelImpl T → Prop} {a : ChanEvent T} (hlink : s.Linked)
    (ho : StepOutcome s a s') (h : R s.ch)
    (hpush : ∀ ch t ch', R ch → ch.push t = some ch' → R ch')
    (hpop : ∀ ch t ch', R ch → ch.pop = some (t, ch') → R ch')
    (hset : ∀ ch op q, R ch → R (ch.setWaitq op q))
    (hclose : a = .close → ∀ ch, R ch → R { ch with closed_ := true }) : R s'.ch := by
  have hreader : ∀ ch t p, R ch → R (popToReader ch t p).1 := by
    intro ch t p hR
    unfold popToReader
    cases hp : ch.pop with
    | none => exact hR
    | some res => exact hpop ch _ _ hR hp
  have hwriter : ∀ ch t p, R ch → R (pushFromWriter ch t p).1 := by
    intro ch t p hR
    unfold pushFromWriter
    cases hp : ch.push p with
    | none => exact hR
    | some ch' => exact hpush ch _ _ hR hp
  cases ho with
  | push _ ho =>
      cases ho with
      | fails => exact h
      | blocks =>
          rw [waite_ch]
          exact hset _ _ _ h
      | hands =>
          rw [finish_ch, decide_ch]
          exact hset _ _ _ h
      | buffers _ _ hp => exact hpush _ _ _ h hp
      | relays _ _ hp => exact hreader _ _ _ (hset _ _ _ (hpush _ _ _ h hp))
  | pop _ ho =>
      cases ho with
      | fails => exact h
      | blocks =>
          rw [waite_ch]
          exact hset _ _ _ h
      | takes =>
          rw [finish_ch, decide_ch]
          exact hset _ _ _ h
      | unbuffers _ _ hp => exact hpop _ _ _ h hp
      | @refills _ t _ _ _ _ _ _ hp => exact hwriter _ t _ (hset _ _ _ (hpop _ _ _ h hp))
  | closed => exact h
  | close =>
      exact (notifyAll_rule (P := fun u => R u.ch) (linked_close hlink) (hclose rfl _ h)
        fun op u _ _ _ q _ hu _ _ _ _ => hset _ _ _ hu).2.1
  | fire => exact h
  | fireWake => exact h
  | resume => exact h
  | stopTimer => exact h

theorem closed_notifyAll (hlink : s.Linked) (h : s.ch.closed_ = true) :
    s.notifyAll.ch.closed_ = true :=
  (notifyAll_rule (P := fun u => u.ch.closed_ = true) hlink h
    fun _ _ _ _ _ _ _ hu _ _ _ _ => (FastChannelImpl.setWaitq_closed _).trans hu).2.1

theorem closed_outcome {a : ChanEvent T} (hlink : s.Linked) (ho : StepOutcome s a s')
    (h : s.ch.closed_ = true) : s'.ch.closed_ = true :=
  channel_outcome (R := fun ch => ch.closed_ = true) hlink ho h
    (fun _ _ _ hR hp => (FastChannelImpl.push_frame hp).closed.trans hR)
    (fun _ _ _ hR hp => (FastChannelImpl.pop_frame hp).closed.trans hR)
    (fun _ _ _ hR => (FastChannelImpl.setWaitq_closed _).trans hR) (fun _ _ _ => rfl)

end ChannelState

end CppGo.Sync
