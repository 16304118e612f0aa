import CppGo.Lib.Observer
import CppGo.Sync.MonitorCondition

/-!
# The monitor without time-outs

Coroutines that use `lock`, `try_lock`, `unlock`, `NotifyOne`, `NotifyAll` and `Wait`
without a time-out.  An observer records the number of every `Wait` whose waiter
`Notify` takes out of the queue.  A waiter that has gone on is in that record, and a
waiter that is not in it is in the queue, from the moment it has enqueued itself.
-/

namespace CppGo.Sync

open CppGo.Lib.Machine

def Pc.woken : Pc → Bool
  | .relock | .spin .wait | .suspend .wait | .recheck .wait | .queued .wait
  | .waitCheck | .waitStop => true
  | _ => false

namespace Monitor

variable {s s' : Monitor} {a : MonitorEvent} {t : Nat}

/-- `Wait` is called without a time-out, and `NotifyOne` after some `Wait`. -/
def protocol (s : Monitor) : MonitorEvent → Bool
  | .wait _ timeout => timeout == -1
  | .notifyOne _ => s.cond.lock_
  | _ => true

/-- The number of the `Wait` whose waiter the event takes out of the queue. -/
def notified (s : Monitor) : MonitorEvent → List Nat
  | .notifyOne _ | .notifyNext _ => (s.cond.waite_queue_.head?.map s.ticket).toList
  | _ => []

structure Timerless (s : Monitor) : Prop where
  timer : ∀ t, s.timer t = .none
  firing : ∀ t, s.firing t = 0

def resumed (s : Monitor) (t : Nat) : Prop :=
  (s.pc t).woken = true ∨ (s.pc t).inWait = true ∧ 1 ≤ s.runq t

theorem timerless_make (ndebug : Bool) : (make ndebug).Timerless :=
  ⟨fun _ => rfl, fun _ => rfl⟩

namespace Timerless

theorem untimed (h : s.Timerless) (hc : s.protocol a = true) (hs : step s a = some s') :
    s.untimed a = true := by
  cases a with
  | fireWake t =>
      cases step_outcome hs with
      | fireWake hfiring =>
          rw [h.firing] at hfiring
          omega
  | notifyOne t =>
      have hlock : s.cond.lock_ = true := hc
      rw [Monitor.untimed, hlock, Bool.or_true]
  | _ => rfl

theorem preserved (h : s.Timerless) (hc : s.protocol a = true) (hs : step s a = some s') :
    s'.Timerless := by
  cases step_outcome hs with
  | @wait t timeout hown =>
      have htimeout : timeout = -1 := eq_of_beq hc
      refine ⟨fun u => ?_, h.firing⟩
      rw [htimeout]
      by_cases hu : u = t
      · rw [hu]
        exact Function.update_self _ _ _
      · exact (Function.update_of_ne hu _ _).trans (h.timer u)
  | fire harmed =>
      rw [h.timer] at harmed
      cases harmed
  | fireWake hfiring =>
      rw [h.firing] at hfiring
      omega
  | @waitStop t hpc =>
      refine ⟨fun u => ?_, h.firing⟩
      show Function.update s.timer t _ u = _
      rw [h.timer t, if_neg (by decide), Function.update_apply, h.timer u, ite_self]
  | _ => exact ⟨h.timer, h.firing⟩

end Timerless

theorem resumed_goto {u : Nat} {p q : Pc} (ht : s'.resumed t) (hq : s.pc u = q)
    (hpc : s'.pc = Function.update s.pc u p)
    (hrunq : (s.pc t).inWait = true → s'.runq t = s.runq t)
    (hwoken : p.woken = true → q.woken = true) (hin : p.inWait = true → q.inWait = true) :
    s.resumed t := by
  by_cases hu : t = u
  · subst hu
    rw [resumed, hpc, Function.update_self] at ht
    rw [resumed, hq]
    apply ht.imp hwoken
    intro hp
    have hwait := hin hp.1
    rw [← hrunq (by rw [hq]; exact hwait)]
    exact ⟨hwait, hp.2⟩
  · rw [resumed, hpc, Function.update_of_ne hu] at ht
    apply ht.imp_right
    intro hp
    rw [← hrunq hp.1]
    exact hp

theorem resumed_notify {wakeup : Nat} {queue : List Nat}
    (ht : (s.notifyFront wakeup queue).resumed t) : s.resumed t ∨ t = wakeup := by
  by_cases hu : t = wakeup
  · exact .inr hu
  · have hrunq : (s.notifyFront wakeup queue).runq t = s.runq t := Function.update_of_ne hu _ _
    rw [resumed, hrunq] at ht
    exact .inl ht

/-- The task `t` goes on in `Wait` only where a notification takes it out. -/
theorem resumed_outcome (hown : s.Owned) (htimer : s.Timerless) (ho : Outcome s a s')
    (ht : s'.resumed t) :
    s'.ticket t = s.ticket t ∧ (s.resumed t ∨ s.notified a = [s.ticket t]) := by
  cases ho with
  | @lockFree u k hpc | @lockBusy u k hpc | @spinFree u k hpc | @spinBusy u k _ hpc
  | @recheckBusy u k hpc | @granted u k hpc | @unlockFree u k hpc | @unlockEmpty u k hpc =>
      refine ⟨rfl, .inl (resumed_goto ht hpc rfl (fun _ => rfl) ?_ ?_)⟩ <;> cases k <;> decide
  | @unlockHand u _ _ k hpc =>
      refine ⟨rfl, .inl (resumed_goto ht hpc rfl (fun _ => rfl) ?_ ?_)⟩ <;>
        cases k <;> simp [beforeUnlock, Pc.woken, Pc.inWait]
  | tryLockFree hpc | waitDone hpc | waitTimer hpc | waitStop hpc | notifyDone hpc =>
      exact ⟨rfl, .inl (resumed_goto ht hpc rfl (fun _ => rfl) (by decide) (by decide))⟩
  | wait hhold | notifyAll hhold =>
      exact ⟨rfl, .inl (resumed_goto ht hhold.1 rfl (fun _ => rfl) (by decide) (by decide))⟩
  | @suspend u k hpc | @recheckFree u k hpc =>
      refine ⟨rfl, .inl (resumed_goto ht hpc rfl (fun hin => ?_) ?_ ?_)⟩
      · exact Function.update_of_ne (Queued.not_inWait hpc rfl hin) _ _
      all_goals cases k <;> decide
  | @handOff u next k hpc =>
      -- the task that is woken is queued on the mutex
      have hqueued := (hown.handing u k next hpc).2
      have hnext : (s.pc next).inWait = false := by
        cases hp : s.pc next <;> simp_all [Pc.inWait, Pc.isQueued]
      refine ⟨rfl, .inl (resumed_goto ht hpc rfl (fun hin => ?_) ?_ ?_)⟩
      · exact Function.update_of_ne (Queued.not_inWait rfl hnext hin) _ _
      all_goals cases k <;> simp [afterUnlock, Pc.woken, Pc.inWait]
  | @waitSuspend u hpc =>
      by_cases hu : t = u
      · -- its run queue has lost it
        subst hu
        have hone : s.runq t = 1 := by simpa [Pc.Fits, hpc] using hown.fits t
        simp [resumed, waitEnqueue, Pc.woken, hone] at ht
      · have hsame : s.resumed t := by
          simpa [resumed, waitEnqueue, suspendBySelfIo, goto, hu] using ht
        exact ⟨Function.update_of_ne hu _ _, .inl hsame⟩
  | @waitResume u hpc hrunq =>
      refine ⟨rfl, .inl ?_⟩
      by_cases hu : t = u
      · subst hu
        exact .inr ⟨by rw [hpc]; rfl, hrunq⟩
      · simpa [resumed, hu] using ht
  | tryLockBusy | notifyAbort | notifyNobody | fire => exact ⟨rfl, .inl ht⟩
  | notifyOne _ hqueue | notifyNext _ hqueue =>
      refine ⟨rfl, (resumed_notify ht).imp_right ?_⟩
      rintro rfl
      rw [notified, hqueue]
      rfl
  | fireWake hfiring =>
      rw [htimer.firing] at hfiring
      omega

/-- A task that is suspended in `Wait` is put into a run queue by a notification only. -/
theorem runq_outcome (hown : s.Owned) (htimer : s.Timerless) (ho : Outcome s a s')
    (hin : (s.pc t).inWait = true) (hlt : s.runq t < s'.runq t) :
    s.notified a = [s.ticket t] := by
  have hupdate : ∀ {u n : Nat}, s.runq t < Function.update s.runq u n t → t = u := by
    intro u n hlt
    by_contra hu
    rw [Function.update_of_ne hu] at hlt
    omega
  cases ho with
  | suspend hpc | recheckFree hpc | waitSuspend hpc =>
      exact absurd (hupdate hlt) (Queued.not_inWait hpc rfl hin)
  | @handOff u next k hpc =>
      have hqueued := (hown.handing u k next hpc).2
      rw [← hupdate hlt] at hqueued
      cases hp : s.pc t <;> simp_all [Pc.inWait, Pc.isQueued]
  | notifyOne _ hqueue | notifyNext _ hqueue =>
      rw [hupdate hlt, notified, hqueue]
      rfl
  | fireWake hfiring =>
      rw [htimer.firing] at hfiring
      omega
  | _ => exact absurd hlt (lt_irrefl _)

theorem notified_outcome (hc : s.protocol a = true) (ho : Outcome s a s') :
    s.notified a = [] ∨ ∃ wakeup queue, s.cond.waite_queue_ = wakeup :: queue ∧
      s.notified a = [s.ticket wakeup] ∧ s' = s.notifyFront wakeup queue := by
  cases ho with
  | @notifyOne u wakeup queue _ hqueue | @notifyNext u wakeup queue _ hqueue =>
      refine .inr ⟨wakeup, queue, hqueue, ?_, rfl⟩
      rw [notified, hqueue]
      rfl
  | notifyNobody _ hqueue | notifyDone _ hqueue =>
      apply Or.inl
      rw [notified, hqueue]
      rfl
  | notifyAbort _ _ hlock =>
      have hset : s.cond.lock_ = true := hc
      rw [hlock] at hset
      cases hset
  | _ => exact .inl rfl

/-- Whoever is in the queue was there before, or has just got the next number. -/
theorem ticket_outcome (ho : Outcome s a s') :
    s.nextTicket ≤ s'.nextTicket ∧ ∀ t ∈ s'.cond.waite_queue_,
      t ∈ s.cond.waite_queue_ ∧ s'.ticket t = s.ticket t ∨ s'.ticket t = s.nextTicket := by
  cases ho with
  | @waitSuspend u hpc =>
      refine ⟨Nat.le_succ _, fun t ht => ?_⟩
      by_cases hu : t = u
      · rw [hu]
        exact .inr (Function.update_self _ _ _)
      · have hmem : t ∈ s.cond.waite_queue_ ++ [u] := ht
        rw [List.mem_append, List.mem_singleton, or_iff_left hu] at hmem
        exact .inl ⟨hmem, Function.update_of_ne hu _ _⟩
  | notifyOne _ hqueue | notifyNext _ hqueue =>
      refine ⟨le_rfl, fun t ht => .inl ⟨?_, rfl⟩⟩
      rw [hqueue]
      exact List.mem_cons_of_mem _ ht
  | _ => exact ⟨le_rfl, fun t ht => .inl ⟨ht, rfl⟩⟩

/-! ## Runs with the record of the notifications -/

/-- A monitor with the numbers of the `Wait`s that were notified, in order. -/
abbrev Watched := Monitor × List Nat

def watch : Watched → MonitorEvent → Option Watched :=
  observed step notified

structure Tracked (w : Watched) : Prop where
  owned : w.1.Owned
  queued : w.1.Queued
  timerless : w.1.Timerless
  sorted : w.2.Pairwise (· < ·)
  fresh : ∀ n ∈ w.2, n < w.1.nextTicket
  ahead : ∀ n ∈ w.2, ∀ t ∈ w.1.cond.waite_queue_, n < w.1.ticket t
  recorded : ∀ t, w.1.resumed t → w.1.ticket t ∈ w.2

theorem tracked_make (ndebug : Bool) : Tracked (make ndebug, []) where
  owned := owned_make ndebug
  queued := queued_make ndebug
  timerless := timerless_make ndebug
  sorted := .nil
  fresh n hn := absurd hn List.not_mem_nil
  ahead n hn := absurd hn List.not_mem_nil
  recorded t ht := by simp [resumed, make, Pc.woken, Pc.inWait] at ht

theorem Tracked.preserved {w v : Watched} (h : Tracked w) (hc : w.1.protocol a = true)
    (hs : watch w a = some v) : Tracked v := by
  obtain ⟨s, os⟩ := w
  obtain ⟨s', os'⟩ := v
  obtain ⟨hstep, hos⟩ := observed_eq_some.mp hs
  have ho := step_outcome hstep
  have huntimed := h.timerless.untimed hc hstep
  have hnext := (ticket_outcome ho).1
  have hold : ∀ n ∈ os, ∀ t ∈ s'.cond.waite_queue_, n < s'.ticket t := by
    intro n hn t ht
    rcases (ticket_outcome ho).2 t ht with ⟨hmem, hticket⟩ | hticket
    · rw [hticket]
      exact h.ahead n hn t hmem
    · rw [hticket]
      exact h.fresh n hn
  have hrecorded : ∀ t, s'.resumed t → s'.ticket t ∈ os' := by
    intro t ht
    obtain ⟨hticket, hres | hnow⟩ := resumed_outcome h.owned h.timerless ho ht
    · rw [hticket, hos]
      exact List.mem_append_left _ (h.recorded t hres)
    · rw [hticket, hos, hnow]
      exact List.mem_append_right _ (List.mem_singleton_self _)
  rcases notified_outcome hc ho with hnone | ⟨wakeup, queue, hqueue, hone, rfl⟩
  · rw [hnone, List.append_nil] at hos
    subst hos
    exact ⟨h.owned.outcome (h.queued.targeted huntimed) ho, h.queued.outcome h.owned huntimed ho,
      h.timerless.preserved hc hstep, h.sorted, fun n hn => (h.fresh n hn).trans_le hnext, hold,
      hrecorded⟩
  · rw [hone] at hos
    subst hos
    have hmem : wakeup ∈ s.cond.waite_queue_ := by rw [hqueue]; exact List.mem_cons_self
    have harrival := h.queued.arrival
    rw [hqueue] at harrival
    refine ⟨h.owned.outcome (h.queued.targeted huntimed) ho,
      h.queued.outcome h.owned huntimed ho, h.timerless.preserved hc hstep, ?_, ?_, ?_, hrecorded⟩
    · rw [List.pairwise_append]
      refine ⟨h.sorted, List.pairwise_singleton _ _, fun n hn m hm => ?_⟩
      rw [List.mem_singleton.mp hm]
      exact h.ahead n hn wakeup hmem
    · intro n hn
      rcases List.mem_append.mp hn with hn | hn
      · exact (h.fresh n hn).trans_le hnext
      · rw [List.mem_singleton.mp hn]
        exact h.queued.fresh wakeup hmem
    · intro n hn t ht
      rcases List.mem_append.mp hn with hn | hn
      · exact hold n hn t ht
      · -- those behind the first of the queue came later
        rw [List.mem_singleton.mp hn]
        exact List.rel_of_pairwise_cons harrival ht

theorem tracked_of_reach {ndebug : Bool} {w : Watched}
    (h : Reach watch (fun w a => w.1.protocol a = true) (make ndebug, []) w) : Tracked w :=
  h.invariant (tracked_make ndebug) fun _ _ _ ht hc hs => ht.preserved hc hs

/-- What the untimed monitor promises.  A waiter that has not been notified is in the
queue, also before it has switched out; the notifications follow the order in which the
waiters have come, nobody is passed over, and no `Wait` is notified twice; a waiter is
put into a run queue by a notification only; and `Wait` returns true, to a task that was
notified and has the mutex. -/
structure Protocol (w : Watched) : Prop where
  owner : ∀ t, (w.1.pc t).inside = true → w.1.mutex.owner_task_ = some t
  exclusive : ∀ t u, (w.1.pc t).inside = true → (w.1.pc u).inside = true → t = u
  kept : ∀ t, (w.1.pc t).inWait = true → w.1.ticket t ∉ w.2 →
    t ∈ w.1.cond.waite_queue_ ∧ w.1.runq t = 0
  order : w.2.Pairwise (· < ·)
  ahead : ∀ n ∈ w.2, ∀ t, w.1.waiting t → n < w.1.ticket t
  fresh : ∀ n ∈ w.2, n < w.1.nextTicket
  oldest : ∀ a n, n ∈ w.1.notified a → ∃ t, w.1.waiting t ∧ w.1.ticket t = n ∧
    ∀ u, w.1.waiting u → u ≠ t → n < w.1.ticket u
  only : ∀ a v, w.1.protocol a = true → watch w a = some v →
    ∀ t, (w.1.pc t).inWait = true → w.1.runq t < v.1.runq t →
      w.1.ticket t ∉ w.2 ∧ v.2 = w.2 ++ [w.1.ticket t]
  returns : ∀ a t v, w.1.protocol a = true → watch w a = some v →
    (w.1.pc t).woken = true → v.1.pc t = .hold →
      w.1.ticket t ∈ w.2 ∧ v.1.mutex.owner_task_ = some t ∧ v.1.result t = some true
  live : w.1.aborted = false

theorem Timerless.result (h : s.Timerless) (hs : step s a = some s')
    (hwoken : (s.pc t).woken = true) (hhold : s'.pc t = .hold) : s'.result t = some true := by
  have hlive : s.stepLive a = some s' := by
    unfold step at hs
    split at hs
    · cases hs
    · exact hs
  have hmoved : ∀ {u : Nat} {p : Pc}, Function.update s.pc u p t = .hold → t = u ∧ p = .hold := by
    intro u p hp
    by_cases hu : t = u
    · subst hu
      rw [Function.update_self] at hp
      exact ⟨rfl, hp⟩
    · rw [Function.update_of_ne hu] at hp
      rw [hp] at hwoken
      cases hwoken
  cases step_outcome hs with
  | @waitDone u ret hpc =>
      obtain ⟨rfl, -⟩ := hmoved hhold
      simp only [stepLive, hpc, h.timer, if_true] at hlive
      rw [← Option.some.inj hlive]
      exact Function.update_self _ _ _
  | waitStop hpc =>
      obtain ⟨rfl, -⟩ := hmoved hhold
      exact Function.update_self _ _ _
  | @lockFree u k hpc | @lockBusy u k hpc | @spinFree u k hpc | @recheckFree u k hpc
  | @granted u k hpc | @unlockFree u k hpc | @unlockEmpty u k hpc | @handOff u _ k hpc =>
      obtain ⟨rfl, hp⟩ := hmoved hhold
      cases k <;> simp_all [afterLock, afterUnlock, beforeLock, Pc.woken]
  | tryLockFree hpc | notifyDone hpc =>
      obtain ⟨rfl, -⟩ := hmoved hhold
      rw [hpc] at hwoken
      cases hwoken
  | spinBusy | suspend | recheckBusy | unlockHand | wait | waitSuspend | waitResume | waitTimer
  | notifyAll => cases (hmoved hhold).2
  | tryLockBusy | notifyAbort | notifyNobody | notifyOne | notifyNext | fire | fireWake =>
      have hp : s.pc t = .hold := hhold
      rw [hp] at hwoken
      cases hwoken

/-- The number a notification shows is that of the longest waiting task. -/
theorem Queued.oldest {n : Nat} (h : s.Queued) (hn : n ∈ s.notified a) :
    ∃ t, s.waiting t ∧ s.ticket t = n ∧ ∀ u, s.waiting u → u ≠ t → n < s.ticket u := by
  have hfront : (s.cond.waite_queue_.head?.map s.ticket) = some n := by
    cases a with
    | notifyOne | notifyNext => exact Option.mem_toList.mp hn
    | _ => exact absurd hn List.not_mem_nil
  cases hqueue : s.cond.waite_queue_ with
  | nil => simp [hqueue] at hfront
  | cons wakeup queue =>
      have hticket : s.ticket wakeup = n := by simpa [hqueue] using hfront
      have hlongest := h.wakesLongest hqueue
      refine ⟨wakeup, hlongest.waiting, hticket, fun u hu hne => ?_⟩
      rw [← hticket]
      exact hlongest.longest u hu hne

theorem protocol_of_reach (ndebug : Bool) (w : Watched)
    (h : Reach watch (fun w a => w.1.protocol a = true) (make ndebug, []) w) : Protocol w := by
  have ht := tracked_of_reach h
  have hown := ht.owned
  have hkept : ∀ t, (w.1.pc t).inWait = true → w.1.ticket t ∉ w.2 → w.1.waiting t := by
    intro t hin hout
    by_contra hnot
    apply hout
    apply ht.recorded
    have hpos : w.1.runq t ≠ 0 := fun hzero => hnot ⟨hin, hzero⟩
    exact .inr ⟨hin, by omega⟩
  refine ⟨hown.inside, fun t u ht hu => ((hown.alone hu t).1).mp ht, fun t hin hout => ?_,
    ht.sorted, fun n hn t hw => ht.ahead n hn t ((ht.queued.waiting t).mpr hw), ht.fresh,
    fun a n hn => ?_, fun a v hc hs t hin hlt => ?_, fun a t v hc hs hwoken hhold => ?_,
    ht.queued.live⟩
  · have hw := hkept t hin hout
    exact ⟨(ht.queued.waiting t).mpr hw, hw.2⟩
  · exact ht.queued.oldest hn
  · obtain ⟨hstep, hos⟩ := observed_eq_some.mp hs
    have hshown := runq_outcome hown ht.timerless (step_outcome hstep) hin hlt
    have hle := ((ht.preserved hc hs).owned.fits t).le
    have hzero : w.1.runq t = 0 := by omega
    have hmem := (ht.queued.waiting t).mpr ⟨hin, hzero⟩
    rw [hshown] at hos
    refine ⟨fun hn => ?_, hos⟩
    exact lt_irrefl _ (ht.ahead _ hn t hmem)
  · have ht' := ht.preserved hc hs
    refine ⟨ht.recorded t (.inl hwoken), ht'.owned.inside t (by rw [hhold]; rfl), ?_⟩
    exact ht.timerless.result (observed_eq_some.mp hs).1 hwoken hhold

/-- Coroutine 2 hands the mutex to coroutine 3 in `Wait`, and is notified before it has
switched out. -/
theorem protocol_notified_early :
    ∃ w, run watch (fun w a => w.1.protocol a = true) (make false, [])
      [.lock 1, .wait 1 (-1), .waitSuspend 1, .unlock 1, .lock 2, .lock 3, .spin 3 false,
        .suspend 3, .recheck 3, .wait 2 (-1), .waitSuspend 2, .unlock 2, .handOff 2, .granted 3,
        .notifyOne 3, .notifyAll 3, .notifyNext 3, .notifyNext 3, .unlock 3, .waitResume 2,
        .lock 2, .waitCheck 2] = some w ∧ Protocol w :=
  ⟨_, rfl, protocol_of_reach false _ (reach_of_run
    [.lock 1, .wait 1 (-1), .waitSuspend 1, .unlock 1, .lock 2, .lock 3, .spin 3 false,
      .suspend 3, .recheck 3, .wait 2 (-1), .waitSuspend 2, .unlock 2, .handOff 2, .granted 3,
      .notifyOne 3, .notifyAll 3, .notifyNext 3, .notifyNext 3, .unlock 3, .waitResume 2,
      .lock 2, .waitCheck 2] rfl)⟩

end Monitor

end CppGo.Sync
