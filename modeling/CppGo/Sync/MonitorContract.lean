import CppGo.Sync.MonitorMutex

/-!
# The contract of the mutex

Mutual exclusion of the monitor with timed waits, and `CoMutex` by itself as a fair
lock.  The mutex refines the abstract lock that is handed to the head of its queue,
which gives the order of the owners.
-/

namespace CppGo.Sync

open CppGo.Lib CppGo.Lib.Machine

def CoMutex.toLock (m : CoMutex) : HandoffLock Nat :=
  { owner := m.owner_task_, queue := m.waite_queue_, grants := m.grants }

namespace Monitor

variable {s s' : Monitor} {a : MonitorEvent}

/-- Every section is a step of the abstract lock or leaves the mutex alone. -/
theorem lock_outcome (ho : Outcome s a s') :
    s'.mutex = s.mutex ∨ HandoffLock.Step s.mutex.toLock s'.mutex.toLock := by
  cases ho with
  | lockFree _ hfree => exact .inr (.take _ hfree)
  | spinFree _ hfree => exact .inr (.take _ hfree)
  | recheckFree _ hfree => exact .inr (.take _ hfree)
  | tryLockFree _ hfree => exact .inr (.take _ hfree)
  | recheckBusy _ hbusy => exact .inr (.enqueue _ hbusy)
  | @unlockEmpty t k _ hbusy hqueue =>
      apply Or.inr
      have hstep := HandoffLock.Step.release (l := s.mutex.toLock) hbusy hqueue
      have heq : ({ s.mutex with owner_task_ := none, waite_queue_ := [] } : CoMutex).toLock =
          { s.mutex.toLock with owner := none } := by
        simp [CoMutex.toLock, hqueue]
      rw [goto_mutex, heq]
      exact hstep
  | unlockHand _ hbusy hqueue => exact .inr (.handOff _ _ hbusy hqueue)
  | _ => exact .inl rfl

theorem steps_of_reach {C : Monitor → MonitorEvent → Prop} (h : Reach step C s s') :
    Relation.ReflTransGen HandoffLock.Step s.mutex.toLock s'.mutex.toLock := by
  induction h with
  | refl => exact .refl
  | tail _ _ hs ih =>
      rcases lock_outcome (step_outcome hs) with heq | hstep
      · rw [heq]
        exact ih
      · exact ih.tail hstep

theorem owned_of_reach {ndebug : Bool}
    (h : Reach step (fun s a => s.targeted a = true) (make ndebug) s) : s.Owned :=
  h.invariant (owned_make ndebug) fun _ _ _ hown hc hs => hown.outcome hc (step_outcome hs)

/-! ## Timed waits -/

/-- Whoever has returned from `lock` or from `Wait` owns the mutex. -/
structure Safe (s : Monitor) : Prop where
  owner : ∀ t, (s.pc t).inside = true → s.mutex.owner_task_ = some t
  exclusive : ∀ t u, (s.pc t).inside = true → (s.pc u).inside = true → t = u

theorem safe_of_targeted (ndebug : Bool) (s : Monitor)
    (h : Reach step (fun s a => s.targeted a = true) (make ndebug) s) : s.Safe := by
  have hown := owned_of_reach h
  exact ⟨hown.inside, fun t u ht hu => ((hown.alone hu t).1).mp ht⟩

/-- Coroutine 1 waits until its timer expires, while coroutine 2 has the mutex. -/
theorem safe_after_timeout :
    ∃ s, run step (fun s a => s.targeted a = true) (make false)
      [.lock 1, .wait 1 10, .waitSuspend 1, .unlock 1, .lock 2, .fire 1, .fireWake 1,
        .waitResume 1, .lock 1] = some s ∧ s.Safe :=
  ⟨_, rfl, safe_of_targeted false _ (reach_of_run
    [.lock 1, .wait 1 10, .waitSuspend 1, .unlock 1, .lock 2, .fire 1, .fireWake 1,
      .waitResume 1, .lock 1] rfl)⟩

/-- Coroutine 1 was notified and is queued on the mutex when its timer expires: the
wake-up is taken for a hand-off, and `Wait` returns while coroutine 2 is the owner. -/
theorem not_safe_after_late_timer :
    ¬ ∀ (ndebug : Bool) (s : Monitor), Reach step Free (make ndebug) s → s.Safe := by
  intro hall
  obtain ⟨s, hrun, hpc, hown⟩ : ∃ s, run step Free (make false)
      [.lock 1, .wait 1 10, .waitSuspend 1, .unlock 1, .lock 2, .notifyOne 2, .waitResume 1,
        .lock 1, .spin 1 false, .suspend 1, .recheck 1, .fire 1, .fireWake 1, .granted 1,
        .waitCheck 1] = some s ∧ s.pc 1 = .hold ∧ s.mutex.owner_task_ = some 2 :=
    ⟨_, rfl, rfl, rfl⟩
  have := (hall false s (reach_of_run _ hrun)).owner 1 (by rw [hpc]; rfl)
  rw [hown] at this
  cases this

/-! ## The mutex by itself -/

def mutexOnly (_ : Monitor) : MonitorEvent → Bool
  | .lock _ | .spin _ _ | .suspend _ | .recheck _ | .granted _ | .tryLock _ | .unlock _
  | .handOff _ => true
  | _ => false

theorem targeted_of_mutexOnly {ndebug : Bool}
    (h : Reach step (fun s a => s.mutexOnly a = true) (make ndebug) s) :
    Reach step (fun s a => s.targeted a = true) (make ndebug) s := by
  refine h.mono fun s a ha => ?_
  cases a with
  | fireWake | notifyOne | notifyNext => cases ha
  | _ => rfl

/-- A fair lock whose wake-ups are safe: the coroutine that has it is the owner;
nobody waits for a free mutex; a waiter is in the queue, or owns the mutex and is
woken or about to be; a task is woken at most once for a suspension and only when it
is in no run queue; and the waiters become the owners in their order. -/
structure FairLock (s : Monitor) : Prop where
  owner : ∀ t, s.pc t = .hold → s.mutex.owner_task_ = some t
  exclusive : ∀ t u, s.pc t = .hold → s.pc u = .hold → t = u
  manned : s.mutex.waite_queue_ ≠ [] → s.mutex.owner_task_ ≠ none
  waiter : ∀ t k, s.pc t = .queued k → t ∈ s.mutex.waite_queue_ ∨
    s.mutex.owner_task_ = some t ∧ (s.runq t = 1 ∨ ∃ u j, s.pc u = .handing j t)
  wakes : ∀ t, s.wakes t ≤ 1
  queued : ∀ t, s.runq t ≤ 1
  pushed : ∀ a s', s.mutexOnly a = true → step s a = some s' →
    ∀ t, s.runq t < s'.runq t → s.runq t = 0
  fair : ∀ s', Reach step (fun s a => s.mutexOnly a = true) s s' →
    s.mutex.toLock.Fair s'.mutex.toLock

theorem fairLock_of_mutexOnly (ndebug : Bool) (s : Monitor)
    (h : Reach step (fun s a => s.mutexOnly a = true) (make ndebug) s) : s.FairLock := by
  have hown := owned_of_reach (targeted_of_mutexOnly h)
  have hrunq : ∀ t, s.runq t ≤ 1 := fun t => (hown.fits t).le
  refine ⟨fun t ht => hown.inside t (by rw [ht]; rfl), fun t u ht hu => ?_, hown.manned,
    fun t k ht => ?_, fun t => (hown.wakes t).trans (hrunq t), hrunq,
    fun a s' ha hs t hlt => ?_, fun s' hs' => ?_⟩
  · have hin : (s.pc u).inside = true := by rw [hu]; rfl
    exact ((hown.alone hin t).1).mp (by rw [ht]; rfl)
  · have hq : (s.pc t).isQueued = true := by rw [ht]; rfl
    refine (hown.queued t hq).imp_right fun how => ⟨how, ?_⟩
    have hle := hrunq t
    rcases Nat.eq_zero_or_pos (s.runq t) with hzero | hpos
    · obtain ⟨u, hu⟩ := (hown.granted t how hq).mp hzero
      cases hp : s.pc u with
      | handing j w =>
          have hw := (hown.handing u j w hp).1
          rw [how] at hw
          cases hw
          exact .inr ⟨u, j, hp⟩
      | _ => simp [hp, Pc.isHanding] at hu
    · exact .inl (by omega)
  · have hown' := owned_of_reach (targeted_of_mutexOnly (h.tail ha hs))
    have := (hown'.fits t).le
    omega
  · exact HandoffLock.fair_of_steps hown.manned (steps_of_reach hs')

/-- Three coroutines, one of which is handed the mutex. -/
theorem fairLock_handed :
    ∃ s, run step (fun s a => s.mutexOnly a = true) (make false)
      [.lock 1, .lock 2, .tryLock 3, .spin 2 true, .suspend 2, .recheck 2, .unlock 1,
        .handOff 1, .granted 2] = some s ∧ s.FairLock :=
  ⟨_, rfl, fairLock_of_mutexOnly false _ (reach_of_run
    [.lock 1, .lock 2, .tryLock 3, .spin 2 true, .suspend 2, .recheck 2, .unlock 1,
      .handOff 1, .granted 2] rfl)⟩

end Monitor

end CppGo.Sync
