import CppGo.Sync.MonitorContract

/-!
# The waiters of the condition variable

As long as no timer wakes a waiter, the queue of the condition variable holds the
tasks that are suspended in `Wait` and not yet woken, in the order of their
arrival; `Notify` then wakes the right tasks.
-/

namespace CppGo.Sync

open CppGo.Lib.Machine

namespace Monitor

variable {s s' : Monitor} {a : MonitorEvent}

def waiting (s : Monitor) (t : Nat) : Prop :=
  (s.pc t).inWait = true ∧ s.runq t = 0

theorem suspendedInWait_iff {t : Nat} : s.suspendedInWait t = true ↔ s.waiting t := by
  simp [suspendedInWait, waiting]

/-- No timer callback gets to its wake-up, and the assertion of `NotifyOne` is not
compiled in or `Wait` has been called. -/
def untimed (s : Monitor) : MonitorEvent → Bool
  | .fireWake _ => false
  | .notifyOne _ => s.ndebug || s.cond.lock_
  | _ => true

structure Queued (s : Monitor) : Prop where
  waiting : ∀ t, t ∈ s.cond.waite_queue_ ↔ s.waiting t
  arrival : s.cond.waite_queue_.Pairwise fun t u => s.ticket t < s.ticket u
  fresh : ∀ t ∈ s.cond.waite_queue_, s.ticket t < s.nextTicket
  live : s.aborted = false

theorem queued_make (ndebug : Bool) : (make ndebug).Queued := by
  constructor <;> simp [make, Monitor.waiting, Pc.inWait]

namespace Queued

variable {t : Nat}

theorem nodup (h : s.Queued) : s.cond.waite_queue_.Nodup := by
  apply h.arrival.imp
  rintro t u hlt rfl
  omega

theorem same (h : s.Queued) (hqueue : s'.cond.waite_queue_ = s.cond.waite_queue_)
    (hticket : s'.ticket = s.ticket) (hnext : s'.nextTicket = s.nextTicket)
    (hlive : s'.aborted = s.aborted) (hwaiting : ∀ u, s'.waiting u ↔ s.waiting u) :
    s'.Queued := by
  constructor
  · intro u
    rw [hqueue, hwaiting]
    exact h.waiting u
  · rw [hqueue, hticket]
    exact h.arrival
  · rw [hqueue, hticket, hnext]
    exact h.fresh
  · rw [hlive]
    exact h.live

theorem move {p q : Pc} (h : s.Queued) (hq : s.pc t = q) (hpc : s'.pc = Function.update s.pc t p)
    (hqueue : s'.cond.waite_queue_ = s.cond.waite_queue_) (hticket : s'.ticket = s.ticket)
    (hnext : s'.nextTicket = s.nextTicket) (hlive : s'.aborted = s.aborted)
    (hin : p.inWait = q.inWait) (hrunq : ∀ u, (s.pc u).inWait = true → s'.runq u = s.runq u) :
    s'.Queued := by
  apply h.same hqueue hticket hnext hlive
  intro u
  have hwait : (s'.pc u).inWait = (s.pc u).inWait := by
    rw [hpc]
    by_cases hu : u = t
    · rw [hu, Function.update_self, hin, hq]
    · rw [Function.update_of_ne hu]
  unfold Monitor.waiting
  rw [hwait]
  apply and_congr_right
  intro hu
  rw [hrunq u hu]

theorem not_inWait {u : Nat} {q : Pc} (hq : s.pc t = q) (hin : q.inWait = false)
    (hu : (s.pc u).inWait = true) : u ≠ t := by
  rintro rfl
  rw [hq, hin] at hu
  cases hu

theorem enqueue (h : s.Queued) (hpc : s.pc t = .waitSuspend) (hone : s.runq t = 1) :
    (s.waitEnqueue t).Queued := by
  have hout : t ∉ s.cond.waite_queue_ := by
    rw [h.waiting, Monitor.waiting, hpc]
    simp [Pc.inWait]
  have hqueue : (s.waitEnqueue t).cond.waite_queue_ = s.cond.waite_queue_ ++ [t] := rfl
  have hticket : ∀ u ∈ s.cond.waite_queue_, (s.waitEnqueue t).ticket u = s.ticket u := by
    intro u hu
    apply Function.update_of_ne
    rintro rfl
    exact hout hu
  have hlast : (s.waitEnqueue t).ticket t = s.nextTicket := Function.update_self _ _ _
  constructor
  · intro u
    rw [hqueue, List.mem_append, List.mem_singleton, h.waiting]
    by_cases hu : u = t
    · rw [hu]
      simp [Monitor.waiting, waitEnqueue, Pc.inWait, hone]
    · simp [Monitor.waiting, waitEnqueue, hu]
  · rw [hqueue, List.pairwise_append]
    refine ⟨?_, List.pairwise_singleton _ _, ?_⟩
    · apply h.arrival.imp_of_mem
      intro u v hu hv hlt
      rw [hticket u hu, hticket v hv]
      exact hlt
    · intro u hu v hv
      rw [List.mem_singleton.mp hv, hticket u hu, hlast]
      exact h.fresh u hu
  · intro u hu
    show _ < s.nextTicket + 1
    rw [hqueue, List.mem_append, List.mem_singleton] at hu
    rcases hu with hu | rfl
    · have := h.fresh u hu
      rw [hticket u hu]
      omega
    · rw [hlast]
      omega
  · exact h.live

theorem notify {wakeup : Nat} {queue : List Nat} (h : s.Queued)
    (hqueue : s.cond.waite_queue_ = wakeup :: queue) : (s.notifyFront wakeup queue).Queued := by
  have hnodup := h.nodup
  have harrival := h.arrival
  rw [hqueue] at hnodup harrival
  constructor
  · intro u
    show u ∈ queue ↔ _
    have hu := h.waiting u
    rw [hqueue, List.mem_cons] at hu
    by_cases hne : u = wakeup
    · rw [hne]
      simp [Monitor.waiting, notifyFront, wakeupBySelfIo, (List.nodup_cons.mp hnodup).1]
    · simpa [Monitor.waiting, notifyFront, wakeupBySelfIo, hne] using hu
  · exact harrival.of_cons
  · intro u hu
    apply h.fresh
    rw [hqueue]
    exact List.mem_cons_of_mem _ hu
  · exact h.live

theorem targeted (h : s.Queued) (hc : s.untimed a = true) : s.targeted a = true := by
  have hhead : s.cond.waite_queue_.head?.all s.suspendedInWait = true := by
    cases hqueue : s.cond.waite_queue_ with
    | nil => rfl
    | cons t queue =>
        have hmem : t ∈ s.cond.waite_queue_ := by rw [hqueue]; exact List.mem_cons_self
        exact suspendedInWait_iff.mpr ((h.waiting t).mp hmem)
  cases a with
  | fireWake => cases hc
  | notifyOne => exact hhead
  | notifyNext => exact hhead
  | _ => rfl

theorem outcome (h : s.Queued) (hown : s.Owned) (hc : s.untimed a = true)
    (ho : Outcome s a s') : s'.Queued := by
  cases ho with
  | @lockFree t k hpc =>
      exact h.move hpc rfl rfl rfl rfl rfl (by cases k <;> rfl) fun _ _ => rfl
  | @lockBusy t k hpc =>
      exact h.move hpc rfl rfl rfl rfl rfl (by cases k <;> rfl) fun _ _ => rfl
  | @spinFree t k hpc =>
      exact h.move hpc rfl rfl rfl rfl rfl (by cases k <;> rfl) fun _ _ => rfl
  | spinBusy hpc => exact h.move hpc rfl rfl rfl rfl rfl rfl fun _ _ => rfl
  | suspend hpc =>
      exact h.move hpc rfl rfl rfl rfl rfl rfl fun u hu =>
        Function.update_of_ne (not_inWait hpc rfl hu) _ _
  | @recheckFree t k hpc =>
      exact h.move hpc rfl rfl rfl rfl rfl (by cases k <;> rfl) fun u hu =>
        Function.update_of_ne (not_inWait hpc rfl hu) _ _
  | recheckBusy hpc => exact h.move hpc rfl rfl rfl rfl rfl rfl fun _ _ => rfl
  | @granted t k hpc =>
      exact h.move hpc rfl rfl rfl rfl rfl (by cases k <;> rfl) fun _ _ => rfl
  | tryLockFree hpc => exact h.move hpc rfl rfl rfl rfl rfl rfl fun _ _ => rfl
  | tryLockBusy => exact h
  | @unlockFree t k hpc =>
      exact h.move hpc rfl rfl rfl rfl rfl (by cases k <;> rfl) fun _ _ => rfl
  | @unlockEmpty t k hpc =>
      exact h.move hpc rfl rfl rfl rfl rfl (by cases k <;> rfl) fun _ _ => rfl
  | @unlockHand t wakeup queue k hpc =>
      exact h.move hpc rfl rfl rfl rfl rfl (by cases k <;> rfl) fun _ _ => rfl
  | @handOff t next k hpc =>
      -- the task that is woken is queued on the mutex
      have hqueued := (hown.handing t k next hpc).2
      have hnext : (s.pc next).inWait = false := by
        cases hp : s.pc next <;> simp_all [Pc.inWait, Pc.isQueued]
      exact h.move hpc rfl rfl rfl rfl rfl (by cases k <;> rfl) fun u hu =>
        Function.update_of_ne (not_inWait rfl hnext hu) _ _
  | wait howner => exact h.move howner.1 rfl rfl rfl rfl rfl rfl fun _ _ => rfl
  | @waitSuspend t hpc =>
      have hfits := hown.fits t
      rw [hpc] at hfits
      exact h.enqueue hpc hfits
  | @waitResume t hpc hrunq =>
      refine h.same rfl rfl rfl rfl fun u => ?_
      by_cases hu : u = t
      · have hpos : s.runq u ≠ 0 := by
          rw [hu]
          omega
        simp [Monitor.waiting, hpos]
      · simp [Monitor.waiting, hu]
  | waitDone hpc => exact h.move hpc rfl rfl rfl rfl rfl rfl fun _ _ => rfl
  | waitTimer hpc => exact h.move hpc rfl rfl rfl rfl rfl rfl fun _ _ => rfl
  | waitStop hpc => exact h.move hpc rfl rfl rfl rfl rfl rfl fun _ _ => rfl
  | notifyAbort _ hdebug hlock => simp [untimed, hdebug, hlock] at hc
  | notifyNobody => exact h
  | notifyOne _ hqueue => exact h.notify hqueue
  | notifyAll howner => exact h.move howner.1 rfl rfl rfl rfl rfl rfl fun _ _ => rfl
  | notifyDone hpc => exact h.move hpc rfl rfl rfl rfl rfl rfl fun _ _ => rfl
  | notifyNext _ hqueue => exact h.notify hqueue
  | fire => exact h.same rfl rfl rfl rfl fun _ => Iff.rfl
  | fireWake => cases hc

end Queued

theorem queued_of_reach {ndebug : Bool}
    (h : Reach step (fun s a => s.untimed a = true) (make ndebug) s) : s.Owned ∧ s.Queued := by
  apply h.invariant (I := fun s => s.Owned ∧ s.Queued) ⟨owned_make ndebug, queued_make ndebug⟩
  intro s a s' hinv hc hs
  have ho := step_outcome hs
  exact ⟨hinv.1.outcome (hinv.2.targeted hc) ho, hinv.2.outcome hinv.1 hc ho⟩

/-! ## Notifications -/

/-- The step wakes the task that has been waiting longest, and no other task. -/
structure WakesLongest (s s' : Monitor) (w : Nat) : Prop where
  waiting : s.waiting w
  longest : ∀ t, s.waiting t → t ≠ w → s.ticket w < s.ticket t
  woken : s'.runq = Function.update s.runq w 1
  frame : s'.pc = s.pc

/-- The queue holds the waiting tasks in the order of their arrival; a notification
wakes the first of them, and does nothing when there is none.  While `NotifyAll` is in
its loop nobody begins to wait, and it returns when nobody waits any more. -/
structure Notifies (s : Monitor) : Prop where
  waiting : ∀ t, t ∈ s.cond.waite_queue_ ↔ s.waiting t
  once : s.cond.waite_queue_.Nodup
  arrival : s.cond.waite_queue_.Pairwise fun t u => s.ticket t < s.ticket u
  live : s.aborted = false
  one : ∀ u s', s.untimed (.notifyOne u) = true → step s (.notifyOne u) = some s' →
    (∃ w, WakesLongest s s' w) ∨ (∀ t, ¬ s.waiting t) ∧ s' = s
  next : ∀ u s', step s (.notifyNext u) = some s' →
    (∃ w, WakesLongest s s' w) ∨ (∀ t, ¬ s.waiting t) ∧ s' = s.goto u .hold
  closed : ∀ u a s', s.pc u = .notifying → s.untimed a = true → step s a = some s' →
    ∀ t, s'.waiting t → s.waiting t
  all : ∀ u s', s.pc u = .notifying →
    Reach step (fun s a => s.pc u = .notifying ∧ s.untimed a = true) s s' →
    s'.pc u ≠ .notifying → ∀ t, ¬ s'.waiting t

theorem Queued.wakesLongest {wakeup : Nat} {queue : List Nat} (h : s.Queued)
    (hqueue : s.cond.waite_queue_ = wakeup :: queue) :
    WakesLongest s (s.notifyFront wakeup queue) wakeup := by
  have hmem : wakeup ∈ s.cond.waite_queue_ := by rw [hqueue]; exact List.mem_cons_self
  have hwaiting := (h.waiting wakeup).mp hmem
  have harrival := h.arrival
  rw [hqueue] at harrival
  refine ⟨hwaiting, fun t ht hne => ?_, ?_, rfl⟩
  · have ht := (h.waiting t).mpr ht
    rw [hqueue, List.mem_cons] at ht
    exact List.rel_of_pairwise_cons harrival (ht.resolve_left hne)
  · simp [notifyFront, wakeupBySelfIo, hwaiting.2]

theorem Queued.nobody (h : s.Queued) (hqueue : s.cond.waite_queue_ = []) (t : Nat) :
    ¬ s.waiting t := by
  rw [← h.waiting, hqueue]
  exact List.not_mem_nil

/-- Only `Wait` puts a task into the queue. -/
theorem subset_of_outcome (ho : Outcome s a s') :
    s'.cond.waite_queue_ ⊆ s.cond.waite_queue_ ∨ ∃ t, s.pc t = .waitSuspend := by
  cases ho with
  | @waitSuspend t hpc => exact .inr ⟨t, hpc⟩
  | notifyOne _ hqueue | notifyNext _ hqueue =>
      apply Or.inl
      rw [hqueue]
      exact List.subset_cons_self _ _
  | _ => exact .inl (List.Subset.refl _)

/-- `NotifyAll` stays in its loop until the queue is empty. -/
theorem notifying_outcome {u : Nat} (ho : Outcome s a s') (hu : s.pc u = .notifying) :
    s'.pc u = .notifying ∨
      s.cond.waite_queue_ = [] ∧ s'.cond.waite_queue_ = s.cond.waite_queue_ := by
  have hkeep : ∀ {t : Nat} {p q : Pc}, s.pc t = q → q ≠ .notifying →
      Function.update s.pc t p u = .notifying := by
    intro t p q hq hne
    rw [Function.update_of_ne, hu]
    rintro rfl
    exact hne (hq.symm.trans hu)
  cases ho with
  | notifyDone _ hqueue => exact .inr ⟨hqueue, rfl⟩
  | tryLockBusy | notifyAbort | notifyNobody | notifyOne | notifyNext | fire | fireWake =>
      exact .inl hu
  | wait hown | notifyAll hown => exact .inl (hkeep hown.1 nofun)
  | @lockFree _ k hpc | @lockBusy _ k hpc =>
      exact .inl (hkeep hpc (by cases k <;> nofun))
  | @unlockFree _ k hpc | @unlockEmpty _ k hpc | @unlockHand _ _ _ k hpc =>
      exact .inl (hkeep hpc (by cases k <;> nofun))
  | spinFree hpc | spinBusy hpc | suspend hpc | recheckFree hpc | recheckBusy hpc | granted hpc
  | tryLockFree hpc | handOff hpc | waitSuspend hpc | waitResume hpc | waitDone hpc
  | waitTimer hpc | waitStop hpc => exact .inl (hkeep hpc nofun)

theorem notifies_of_untimed (ndebug : Bool) (s : Monitor)
    (h : Reach step (fun s a => s.untimed a = true) (make ndebug) s) : s.Notifies := by
  have hown := (queued_of_reach h).1
  have hq := (queued_of_reach h).2
  refine ⟨hq.waiting, hq.nodup, hq.arrival, hq.live, fun u s' hc hs => ?_, fun u s' hs => ?_,
    fun u a s' hu hc hs t ht => ?_, fun u s' hu hr hne => ?_⟩
  · cases step_outcome hs with
    | notifyAbort _ hdebug hlock => simp [untimed, hdebug, hlock] at hc
    | notifyNobody _ hqueue => exact .inr ⟨hq.nobody hqueue, rfl⟩
    | notifyOne _ hqueue => exact .inl ⟨_, hq.wakesLongest hqueue⟩
  · cases step_outcome hs with
    | notifyDone _ hqueue => exact .inr ⟨hq.nobody hqueue, rfl⟩
    | notifyNext _ hqueue => exact .inl ⟨_, hq.wakesLongest hqueue⟩
  · have hq' := (queued_of_reach (h.tail hc hs)).2
    rcases subset_of_outcome (step_outcome hs) with hsub | ⟨v, hv⟩
    · exact (hq.waiting t).mp (hsub ((hq'.waiting t).mpr ht))
    · -- the task in `Wait` would have the mutex as well
      have hin : (s.pc u).inside = true := by rw [hu]; rfl
      have huv := ((hown.alone hin v).1).mp (by rw [hv]; rfl)
      rw [huv, hu] at hv
      cases hv
  · cases hr with
    | refl => exact absurd hu hne
    | @tail v _ b hsv hc hs =>
        have hv : Reach step (fun s a => s.untimed a = true) (make ndebug) v :=
          h.trans (hsv.mono fun _ _ hb => hb.2)
        have hs' := (queued_of_reach (hv.tail hc.2 hs)).2
        rcases notifying_outcome (step_outcome hs) hc.1 with hpc | ⟨hempty, hsame⟩
        · exact absurd hpc hne
        · exact hs'.nobody (hsame.trans hempty)

/-- Two waiters, of which the first is woken by `NotifyOne` and the second by
`NotifyAll`. -/
theorem notifies_both :
    ∃ s, run step (fun s a => s.untimed a = true) (make false)
      [.lock 1, .wait 1 10, .waitSuspend 1, .unlock 1, .lock 2, .wait 2 (-1), .waitSuspend 2,
        .unlock 2, .lock 3, .notifyOne 3, .notifyAll 3, .notifyNext 3, .notifyNext 3] = some s ∧
      s.Notifies :=
  ⟨_, rfl, notifies_of_untimed false _ (reach_of_run
    [.lock 1, .wait 1 10, .waitSuspend 1, .unlock 1, .lock 2, .wait 2 (-1), .waitSuspend 2,
      .unlock 2, .lock 3, .notifyOne 3, .notifyAll 3, .notifyNext 3, .notifyNext 3] rfl)⟩

/-- Coroutine 1 gives up when its timer expires, and its entry stays in the queue.  With
assertions, `NotifyOne` before the first `Wait` ends the program. -/
theorem not_notifies_after_timeout :
    (¬ ∀ (ndebug : Bool) (s : Monitor), Reach step Free (make ndebug) s → s.Notifies) ∧
      ∃ s, run step Free (make false) [.lock 1, .notifyOne 1] = some s ∧ s.aborted = true := by
  refine ⟨fun hall => ?_, _, rfl, rfl⟩
  obtain ⟨s, hrun, hqueue, hpc⟩ : ∃ s, run step Free (make false)
      [.lock 1, .wait 1 10, .waitSuspend 1, .unlock 1, .fire 1, .fireWake 1, .waitResume 1,
        .lock 1, .waitCheck 1] = some s ∧ s.cond.waite_queue_ = [1] ∧ s.pc 1 = .hold :=
    ⟨_, rfl, rfl, rfl⟩
  have hmem : 1 ∈ s.cond.waite_queue_ := by rw [hqueue]; exact List.mem_singleton_self 1
  have hwaiting := ((hall false s (reach_of_run _ hrun)).waiting 1).mp hmem
  rw [waiting, hpc] at hwaiting
  cases hwaiting.1

end Monitor

end CppGo.Sync
