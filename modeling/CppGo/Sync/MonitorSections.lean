import CppGo.Sync.Monitor

/-!
# The sections of the mutex and the condition variable

Every step of a monitor is one of the branches listed here, with the tests that
lead to it.
-/

namespace CppGo.Sync

namespace Monitor

section Fields

variable {s : Monitor} {t : Nat} {p : Pc}

@[simp] theorem goto_mutex : (s.goto t p).mutex = s.mutex := rfl
@[simp] theorem goto_cond : (s.goto t p).cond = s.cond := rfl
@[simp] theorem goto_runq : (s.goto t p).runq = s.runq := rfl
@[simp] theorem goto_wakes : (s.goto t p).wakes = s.wakes := rfl
@[simp] theorem goto_pc : (s.goto t p).pc = Function.update s.pc t p := rfl
@[simp] theorem wakeupBySelfIo_mutex : (s.wakeupBySelfIo t).mutex = s.mutex := rfl
@[simp] theorem wakeupBySelfIo_cond : (s.wakeupBySelfIo t).cond = s.cond := rfl
@[simp] theorem wakeupBySelfIo_pc : (s.wakeupBySelfIo t).pc = s.pc := rfl
@[simp] theorem suspendBySelfIo_mutex : (s.suspendBySelfIo t).mutex = s.mutex := rfl
@[simp] theorem suspendBySelfIo_cond : (s.suspendBySelfIo t).cond = s.cond := rfl
@[simp] theorem suspendBySelfIo_pc : (s.suspendBySelfIo t).pc = s.pc := rfl

@[simp] theorem wakeupBySelfIo_runq :
    (s.wakeupBySelfIo t).runq = Function.update s.runq t (s.runq t + 1) := rfl

@[simp] theorem wakeupBySelfIo_wakes :
    (s.wakeupBySelfIo t).wakes = Function.update s.wakes t (s.wakes t + 1) := rfl

@[simp] theorem suspendBySelfIo_runq :
    (s.suspendBySelfIo t).runq = Function.update s.runq t (s.runq t - 1) := rfl

@[simp] theorem suspendBySelfIo_wakes :
    (s.suspendBySelfIo t).wakes = Function.update s.wakes t 0 := rfl

end Fields

def beforeLock : Caller → Pc
  | .user => .out
  | .wait => .relock

def beforeUnlock : Caller → Pc
  | .user => .hold
  | .wait => .waitUnlock

inductive Outcome (s : Monitor) : MonitorEvent → Monitor → Prop
  | lockFree {t : Nat} {k : Caller} (hpc : s.pc t = beforeLock k)
      (hfree : s.mutex.owner_task_ = none) :
      Outcome s (.lock t) ({ s with mutex := s.mutex.setOwner t }.goto t (afterLock k))
  | lockBusy {t : Nat} {k : Caller} (hpc : s.pc t = beforeLock k)
      (hbusy : s.mutex.owner_task_ ≠ none) : Outcome s (.lock t) (s.goto t (.spin k))
  | spinFree {t : Nat} {k : Caller} (hpc : s.pc t = .spin k)
      (hfree : s.mutex.owner_task_ = none) :
      Outcome s (.spin t true) ({ s with mutex := s.mutex.setOwner t }.goto t (afterLock k))
  | spinBusy {t : Nat} {k : Caller} {got : Bool} (hpc : s.pc t = .spin k) :
      Outcome s (.spin t got) (s.goto t (.suspend k))
  | suspend {t : Nat} {k : Caller} (hpc : s.pc t = .suspend k) :
      Outcome s (.suspend t) ((s.suspendBySelfIo t).goto t (.recheck k))
  | recheckFree {t : Nat} {k : Caller} (hpc : s.pc t = .recheck k)
      (hfree : s.mutex.owner_task_ = none) :
      Outcome s (.recheck t)
        (({ s with mutex := s.mutex.setOwner t }.wakeupBySelfIo t).goto t (afterLock k))
  | recheckBusy {t : Nat} {k : Caller} (hpc : s.pc t = .recheck k)
      (hbusy : s.mutex.owner_task_ ≠ none) :
      Outcome s (.recheck t) ({ s with mutex := s.mutex.emplace t }.goto t (.queued k))
  | granted {t : Nat} {k : Caller} (hpc : s.pc t = .queued k) (hrunq : 1 ≤ s.runq t) :
      Outcome s (.granted t) (s.goto t (afterLock k))
  | tryLockFree {t : Nat} (hpc : s.pc t = .out) (hfree : s.mutex.owner_task_ = none) :
      Outcome s (.tryLock t) ({ s with mutex := s.mutex.setOwner t }.goto t .hold)
  | tryLockBusy {t : Nat} (hpc : s.pc t = .out) : Outcome s (.tryLock t) s
  | unlockFree {t : Nat} {k : Caller} (hpc : s.pc t = beforeUnlock k)
      (hfree : s.mutex.owner_task_ = none) :
      Outcome s (.unlock t) (s.goto t (afterUnlock k))
  | unlockEmpty {t : Nat} {k : Caller} (hpc : s.pc t = beforeUnlock k)
      (hbusy : s.mutex.owner_task_ ≠ none) (hqueue : s.mutex.waite_queue_ = []) :
      Outcome s (.unlock t)
        ({ s with
          mutex := { s.mutex with owner_task_ := none, waite_queue_ := [] } }.goto t
            (afterUnlock k))
  | unlockHand {t wakeup : Nat} {queue : List Nat} {k : Caller}
      (hpc : s.pc t = beforeUnlock k) (hbusy : s.mutex.owner_task_ ≠ none)
      (hqueue : s.mutex.waite_queue_ = wakeup :: queue) :
      Outcome s (.unlock t)
        ({ s with mutex := { s.mutex with waite_queue_ := queue }.setOwner wakeup }.goto t
          (.handing k wakeup))
  | handOff {t next : Nat} {k : Caller} (hpc : s.pc t = .handing k next) :
      Outcome s (.handOff t) ((s.wakeupBySelfIo next).goto t (afterUnlock k))
  | wait {t : Nat} {timeout : Int} (hown : s.ownerAt t .hold) :
      Outcome s (.wait t timeout) (s.waitBegin t timeout)
  | waitSuspend {t : Nat} (hpc : s.pc t = .waitSuspend) :
      Outcome s (.waitSuspend t) (s.waitEnqueue t)
  | waitResume {t : Nat} (hpc : s.pc t = .waitYield) (hrunq : 1 ≤ s.runq t) :
      Outcome s (.waitResume t) (s.goto t .relock)
  | waitDone {t : Nat} {ret : Bool} (hpc : s.pc t = .waitCheck) :
      Outcome s (.waitCheck t) ((s.waitReturn t ret).goto t .hold)
  | waitTimer {t : Nat} (hpc : s.pc t = .waitCheck) :
      Outcome s (.waitCheck t) (s.goto t .waitStop)
  | waitStop {t : Nat} (hpc : s.pc t = .waitStop) :
      Outcome s (.waitStop t)
        (({ s with
          timer := Function.update s.timer t
            (if s.timer t = WaitTimeout.armed then .stopped else s.timer t) }.waitReturn
          t true).goto t .hold)
  | notifyAbort {t : Nat} (hown : s.ownerAt t .hold) (hdebug : s.ndebug = false)
      (hlock : s.cond.lock_ = false) : Outcome s (.notifyOne t) { s with aborted := true }
  | notifyNobody {t : Nat} (hown : s.ownerAt t .hold) (hqueue : s.cond.waite_queue_ = []) :
      Outcome s (.notifyOne t) s
  | notifyOne {t wakeup : Nat} {queue : List Nat} (hown : s.ownerAt t .hold)
      (hqueue : s.cond.waite_queue_ = wakeup :: queue) :
      Outcome s (.notifyOne t) (s.notifyFront wakeup queue)
  | notifyAll {t : Nat} (hown : s.ownerAt t .hold) :
      Outcome s (.notifyAll t) (s.goto t .notifying)
  | notifyDone {t : Nat} (hpc : s.pc t = .notifying) (hqueue : s.cond.waite_queue_ = []) :
      Outcome s (.notifyNext t) (s.goto t .hold)
  | notifyNext {t wakeup : Nat} {queue : List Nat} (hpc : s.pc t = .notifying)
      (hqueue : s.cond.waite_queue_ = wakeup :: queue) :
      Outcome s (.notifyNext t) (s.notifyFront wakeup queue)
  | fire {t : Nat} (harmed : s.timer t = .armed) :
      Outcome s (.fire t) { s with
        timer := Function.update s.timer t .fired
        isTimeOut := Function.update s.isTimeOut t true
        firing := Function.update s.firing t (s.firing t + 1) }
  | fireWake {t : Nat} (hfiring : 0 < s.firing t) :
      Outcome s (.fireWake t)
        ({ s with firing := Function.update s.firing t (s.firing t - 1) }.wakeupBySelfIo t)

variable {s s' : Monitor}

theorem lockFirst_outcome {t : Nat} {k : Caller} (hpc : s.pc t = beforeLock k) :
    Outcome s (.lock t) (s.lockFirst t k) := by
  unfold lockFirst CoMutex.acquire
  by_cases hfree : s.mutex.owner_task_ = none
  · rw [if_pos hfree]
    exact .lockFree hpc hfree
  · rw [if_neg hfree]
    exact .lockBusy hpc hfree

theorem unlock_outcome {t : Nat} {k : Caller} (hpc : s.pc t = beforeUnlock k) :
    Outcome s (.unlock t) (s.unlockFrom t k) := by
  unfold unlockFrom CoMutex.unlock
  by_cases hfree : s.mutex.owner_task_ = none
  · rw [if_pos hfree]
    exact .unlockFree hpc hfree
  · rw [if_neg hfree]
    cases hqueue : s.mutex.waite_queue_ with
    | nil => exact .unlockEmpty hpc hfree hqueue
    | cons wakeup queue => exact .unlockHand hpc hfree hqueue

theorem step_outcome {a : MonitorEvent} (hs : s.step a = some s') : Outcome s a s' := by
  have hlive : s.stepLive a = some s' := by
    unfold step at hs
    split at hs
    · cases hs
    · exact hs
  unfold stepLive at hlive
  cases a with
  | lock t =>
      simp only at hlive
      split at hlive
      · rename_i hpc
        cases hlive
        exact lockFirst_outcome (k := .user) hpc
      · rename_i hpc
        cases hlive
        exact lockFirst_outcome (k := .wait) hpc
      · cases hlive
  | spin t got =>
      simp only at hlive
      split at hlive
      · rename_i k hpc
        simp only [Option.ite_none_right_eq_some, Option.some.injEq] at hlive
        obtain ⟨-, rfl⟩ := hlive
        unfold lockSpin CoMutex.acquire
        cases got with
        | false => exact .spinBusy hpc
        | true =>
            by_cases hfree : s.mutex.owner_task_ = none
            · simp only [if_true, hfree]
              exact .spinFree hpc hfree
            · simp only [if_true, hfree, if_false]
              exact .spinBusy hpc
      · cases hlive
  | suspend t =>
      simp only at hlive
      split at hlive
      · rename_i k hpc
        cases hlive
        exact .suspend hpc
      · cases hlive
  | recheck t =>
      simp only at hlive
      split at hlive
      · rename_i k hpc
        cases hlive
        unfold lockRecheck CoMutex.acquire
        by_cases hfree : s.mutex.owner_task_ = none
        · rw [if_pos hfree]
          exact .recheckFree hpc hfree
        · rw [if_neg hfree]
          exact .recheckBusy hpc hfree
      · cases hlive
  | granted t =>
      simp only at hlive
      split at hlive
      · rename_i k hpc
        simp only [Option.ite_none_right_eq_some, Option.some.injEq] at hlive
        obtain ⟨hrunq, rfl⟩ := hlive
        exact .granted hpc hrunq
      · cases hlive
  | tryLock t =>
      simp only [Option.ite_none_right_eq_some] at hlive
      obtain ⟨hpc, hlive⟩ := hlive
      unfold CoMutex.acquire at hlive
      by_cases hfree : s.mutex.owner_task_ = none
      · rw [if_pos hfree] at hlive
        cases hlive
        exact .tryLockFree hpc hfree
      · rw [if_neg hfree] at hlive
        cases hlive
        exact .tryLockBusy hpc
  | unlock t =>
      simp only at hlive
      split at hlive
      · rename_i hpc
        simp only [Option.ite_none_right_eq_some, Option.some.injEq] at hlive
        obtain ⟨-, rfl⟩ := hlive
        exact unlock_outcome (k := .user) hpc
      · rename_i hpc
        cases hlive
        exact unlock_outcome (k := .wait) hpc
      · cases hlive
  | handOff t =>
      simp only at hlive
      split at hlive
      · rename_i k next hpc
        cases hlive
        exact .handOff hpc
      · cases hlive
  | wait t timeout =>
      simp only [Option.ite_none_right_eq_some, Option.some.injEq] at hlive
      obtain ⟨⟨hown, -⟩, rfl⟩ := hlive
      exact .wait hown
  | waitSuspend t =>
      simp only [Option.ite_none_right_eq_some, Option.some.injEq] at hlive
      obtain ⟨hpc, rfl⟩ := hlive
      exact .waitSuspend hpc
  | waitResume t =>
      simp only [Option.ite_none_right_eq_some, Option.some.injEq] at hlive
      obtain ⟨⟨hpc, hrunq⟩, rfl⟩ := hlive
      exact .waitResume hpc hrunq
  | waitCheck t =>
      simp only [Option.ite_none_right_eq_some] at hlive
      obtain ⟨hpc, hlive⟩ := hlive
      split_ifs at hlive <;> cases hlive
      · exact .waitDone hpc
      · exact .waitDone hpc
      · exact .waitTimer hpc
  | waitStop t =>
      simp only [Option.ite_none_right_eq_some, Option.some.injEq] at hlive
      obtain ⟨hpc, rfl⟩ := hlive
      exact .waitStop hpc
  | notifyOne t =>
      simp only [Option.ite_none_right_eq_some] at hlive
      obtain ⟨hown, hlive⟩ := hlive
      split_ifs at hlive with habort
      · cases hlive
        exact .notifyAbort hown habort.1 habort.2
      · split at hlive
        · rename_i hqueue
          cases hlive
          exact .notifyNobody hown hqueue
        · rename_i wakeup queue hqueue
          cases hlive
          exact .notifyOne hown hqueue
  | notifyAll t =>
      simp only [Option.ite_none_right_eq_some, Option.some.injEq] at hlive
      obtain ⟨hown, rfl⟩ := hlive
      exact .notifyAll hown
  | notifyNext t =>
      simp only [Option.ite_none_right_eq_some] at hlive
      obtain ⟨hpc, hlive⟩ := hlive
      split at hlive
      · rename_i hqueue
        cases hlive
        exact .notifyDone hpc hqueue
      · rename_i wakeup queue hqueue
        cases hlive
        exact .notifyNext hpc hqueue
  | fire t =>
      simp only [Option.ite_none_right_eq_some, Option.some.injEq] at hlive
      obtain ⟨harmed, rfl⟩ := hlive
      exact .fire harmed
  | fireWake t =>
      simp only [Option.ite_none_right_eq_some, Option.some.injEq] at hlive
      obtain ⟨hfiring, rfl⟩ := hlive
      exact .fireWake hfiring

end Monitor

end CppGo.Sync
