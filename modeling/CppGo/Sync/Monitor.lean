import CppGo.Lib.HandoffLock
import CppGo.Lib.Machine
import Mathlib.Logic.Function.Basic

/-!
# `CoMutex` and `CoConditionVariable`

`sync/co_mutex.cpp` and `sync/co_condition_variable.cpp`: coroutines that share
one mutex and one condition variable.  Every coroutine has a program counter, and
one event is one section of its code: a section guarded by the mutex's `lock_`,
a call of `SuspendBySelfIO` or `WakeupBySelfIO`, or a switch.  The callback of the
timer of a `Wait` is two events: it sets `isTimeOut`, then it wakes the task.
-/

namespace CppGo.Sync

/-- `grants` is a ghost: everybody who ever became the owner. -/
structure CoMutex where
  owner_task_ : Option Nat
  waite_queue_ : List Nat
  grants : List Nat

namespace CoMutex

def setOwner (m : CoMutex) (task : Nat) : CoMutex :=
  { m with owner_task_ := some task, grants := m.grants ++ [task] }

/-- `if (!owner_task_) owner_task_ = currentTask;` -/
def acquire (m : CoMutex) (task : Nat) : Option CoMutex :=
  if m.owner_task_ = none then some (m.setOwner task) else none

def emplace (m : CoMutex) (task : Nat) : CoMutex :=
  { m with waite_queue_ := m.waite_queue_ ++ [task] }

/-- The section of `unlock` under `lock_`, and the task to wake after it. -/
def unlock (m : CoMutex) : CoMutex × Option Nat :=
  if m.owner_task_ = none then (m, none)
  else match m.waite_queue_ with
    | [] => ({ m with owner_task_ := none }, none)
    | wakeup :: queue =>
        ({ m with waite_queue_ := queue }.setOwner wakeup, some wakeup)

end CoMutex

/-- `lock_` says whether the pointer has been set. -/
structure CoConditionVariable where
  lock_ : Bool
  waite_queue_ : List Nat

/-- Who called `CoMutex::lock` or `CoMutex::unlock`: the coroutine's own code, or
`CoConditionVariable::Wait`. -/
inductive Caller
  | user
  | wait
deriving DecidableEq, Repr

inductive Pc
  | out
  /-- in the critical section -/
  | hold
  /-- `lock` found an owner and has yielded -/
  | spin (k : Caller)
  /-- the spin has failed: `SuspendBySelfIO` comes next -/
  | suspend (k : Caller)
  /-- suspended: the second test of `owner_task_` comes next -/
  | recheck (k : Caller)
  /-- in `waite_queue_` of the mutex, or handed the mutex and not yet resumed -/
  | queued (k : Caller)
  /-- `unlock` has released `lock_`: `WakeupBySelfIO(next)` comes next -/
  | handing (k : Caller) (next : Nat)
  /-- in the loop of `NotifyAll` -/
  | notifying
  /-- `Wait` has created its timer: `SuspendBySelfIO` comes next -/
  | waitSuspend
  /-- in the queue of the condition variable: `mutex.unlock` comes next -/
  | waitUnlock
  /-- switched out until it is woken -/
  | waitYield
  /-- woken: `mutex.lock` comes next -/
  | relock
  /-- has the mutex again: the test of `isTimeOut` comes next -/
  | waitCheck
  /-- `StopTimer` comes next -/
  | waitStop
deriving DecidableEq, Repr

inductive WaitTimeout
  | none
  | armed
  | fired
  | stopped
deriving DecidableEq, Repr

/-- `firing` counts the callbacks of a task's timers that have set `isTimeOut` and not
yet called `WakeupBySelfIO`, and `result` is what the last `Wait` returned.  Ghosts: `wakes`
counts the wake-ups since the last suspension, and `ticket` is the number of the task's last
`Wait`. -/
structure Monitor where
  mutex : CoMutex
  cond : CoConditionVariable
  pc : Nat → Pc
  runq : Nat → Nat
  wakes : Nat → Nat
  timer : Nat → WaitTimeout
  isTimeOut : Nat → Bool
  result : Nat → Option Bool
  firing : Nat → Nat
  ticket : Nat → Nat
  nextTicket : Nat
  ndebug : Bool
  aborted : Bool

inductive MonitorEvent
  /-- the first test of `lock` -/
  | lock (task : Nat)
  /-- the `try_lock` after the yield, which may fail spuriously -/
  | spin (task : Nat) (got : Bool)
  | suspend (task : Nat)
  | recheck (task : Nat)
  /-- `lock` returns after a hand-off -/
  | granted (task : Nat)
  | tryLock (task : Nat)
  | unlock (task : Nat)
  | handOff (task : Nat)
  | wait (task : Nat) (timeout : Int)
  | waitSuspend (task : Nat)
  | waitResume (task : Nat)
  | waitCheck (task : Nat)
  | waitStop (task : Nat)
  | notifyOne (task : Nat)
  | notifyAll (task : Nat)
  /-- one test of the loop of `NotifyAll` -/
  | notifyNext (task : Nat)
  | fire (task : Nat)
  | fireWake (task : Nat)
deriving DecidableEq, Repr

namespace Monitor

def make (ndebug : Bool) : Monitor :=
  { mutex := { owner_task_ := none, waite_queue_ := [], grants := [] }
    cond := { lock_ := false, waite_queue_ := [] }
    pc := fun _ => .out
    runq := fun _ => 1
    wakes := fun _ => 0
    timer := fun _ => .none
    isTimeOut := fun _ => false
    result := fun _ => none
    firing := fun _ => 0
    ticket := fun _ => 0
    nextTicket := 0
    ndebug := ndebug
    aborted := false }

def goto (s : Monitor) (task : Nat) (p : Pc) : Monitor :=
  { s with pc := Function.update s.pc task p }

def wakeupBySelfIo (s : Monitor) (task : Nat) : Monitor :=
  { s with
    runq := Function.update s.runq task (s.runq task + 1)
    wakes := Function.update s.wakes task (s.wakes task + 1) }

def suspendBySelfIo (s : Monitor) (task : Nat) : Monitor :=
  { s with
    runq := Function.update s.runq task (s.runq task - 1)
    wakes := Function.update s.wakes task 0 }

def afterLock : Caller → Pc
  | .user => .hold
  | .wait => .waitCheck

def afterUnlock : Caller → Pc
  | .user => .out
  | .wait => .waitYield

/-- The first test of `lock`; `k` is its caller. -/
def lockFirst (s : Monitor) (task : Nat) (k : Caller) : Monitor :=
  match s.mutex.acquire task with
  | some m => { s with mutex := m }.goto task (afterLock k)
  | none => s.goto task (.spin k)

def lockSpin (s : Monitor) (task : Nat) (k : Caller) (got : Bool) : Monitor :=
  if got then
    match s.mutex.acquire task with
    | some m => { s with mutex := m }.goto task (afterLock k)
    | none => s.goto task (.suspend k)
  else s.goto task (.suspend k)

def lockRecheck (s : Monitor) (task : Nat) (k : Caller) : Monitor :=
  match s.mutex.acquire task with
  | some m => ({ s with mutex := m }.wakeupBySelfIo task).goto task (afterLock k)
  | none => { s with mutex := s.mutex.emplace task }.goto task (.queued k)

/-- `unlock` up to the release of `lock_`. -/
def unlockFrom (s : Monitor) (task : Nat) (k : Caller) : Monitor :=
  match s.mutex.unlock with
  | (m, none) => { s with mutex := m }.goto task (afterUnlock k)
  | (m, some wakeup) => { s with mutex := m }.goto task (.handing k wakeup)

/-- `Wait` up to the creation of its timer. -/
def waitBegin (s : Monitor) (task : Nat) (timeout : Int) : Monitor :=
  { s with
    cond := { s.cond with lock_ := true }
    timer := Function.update s.timer task (if timeout > 0 then .armed else .none)
    isTimeOut := Function.update s.isTimeOut task false }.goto task .waitSuspend

/-- `SuspendBySelfIO` and `waite_queue_.emplace`. -/
def waitEnqueue (s : Monitor) (task : Nat) : Monitor :=
  { s.suspendBySelfIo task with
    cond := { s.cond with waite_queue_ := s.cond.waite_queue_ ++ [task] }
    ticket := Function.update s.ticket task s.nextTicket
    nextTicket := s.nextTicket + 1 }.goto task .waitUnlock

def waitReturn (s : Monitor) (task : Nat) (ret : Bool) : Monitor :=
  { s with result := Function.update s.result task (some ret) }

/-- Pop the queue of the condition variable and wake the task. -/
def notifyFront (s : Monitor) (wakeup : Nat) (queue : List Nat) : Monitor :=
  { s with cond := { s.cond with waite_queue_ := queue } }.wakeupBySelfIo wakeup

/-- `mutex.owner_task_` is the caller and it is in the critical section. -/
def ownerAt (s : Monitor) (task : Nat) (p : Pc) : Prop :=
  s.pc task = p ∧ s.mutex.owner_task_ = some task

instance (s : Monitor) (task : Nat) (p : Pc) : Decidable (s.ownerAt task p) :=
  inferInstanceAs (Decidable (_ ∧ _))

def stepLive (s : Monitor) : MonitorEvent → Option Monitor
  | .lock task => match s.pc task with
    | .out => some (s.lockFirst task .user)
    | .relock => some (s.lockFirst task .wait)
    | _ => none
  | .spin task got => match s.pc task with
    | .spin k => if 1 ≤ s.runq task then some (s.lockSpin task k got) else none
    | _ => none
  | .suspend task => match s.pc task with
    | .suspend k => some ((s.suspendBySelfIo task).goto task (.recheck k))
    | _ => none
  | .recheck task => match s.pc task with
    | .recheck k => some (s.lockRecheck task k)
    | _ => none
  | .granted task => match s.pc task with
    | .queued k => if 1 ≤ s.runq task then some (s.goto task (afterLock k)) else none
    | _ => none
  | .tryLock task =>
      if s.pc task = .out then
        match s.mutex.acquire task with
        | some m => some ({ s with mutex := m }.goto task .hold)
        | none => some s
      else none
  | .unlock task => match s.pc task with
    | .hold => if s.mutex.owner_task_ = some task then some (s.unlockFrom task .user) else none
    | .waitUnlock => some (s.unlockFrom task .wait)
    | _ => none
  | .handOff task => match s.pc task with
    | .handing k next => some ((s.wakeupBySelfIo next).goto task (afterUnlock k))
    | _ => none
  | .wait task timeout =>
      if s.ownerAt task .hold ∧ timeout ≠ 0 then some (s.waitBegin task timeout) else none
  | .waitSuspend task =>
      if s.pc task = .waitSuspend then some (s.waitEnqueue task) else none
  | .waitResume task =>
      if s.pc task = .waitYield ∧ 1 ≤ s.runq task then some (s.goto task .relock) else none
  | .waitCheck task =>
      if s.pc task = .waitCheck then
        if s.timer task = .none then some ((s.waitReturn task true).goto task .hold)
        else if s.isTimeOut task then some ((s.waitReturn task false).goto task .hold)
        else some (s.goto task .waitStop)
      else none
  | .waitStop task =>
      if s.pc task = .waitStop then
        some (({ s with
          timer := Function.update s.timer task
            (if s.timer task = WaitTimeout.armed then .stopped else s.timer task) }.waitReturn
          task true).goto task .hold)
      else none
  | .notifyOne task =>
      if s.ownerAt task .hold then
        if s.ndebug = false ∧ s.cond.lock_ = false then some { s with aborted := true }
        else match s.cond.waite_queue_ with
          | [] => some s
          | wakeup :: queue => some (s.notifyFront wakeup queue)
      else none
  | .notifyAll task =>
      if s.ownerAt task .hold then some (s.goto task .notifying) else none
  | .notifyNext task =>
      if s.pc task = .notifying then
        match s.cond.waite_queue_ with
        | [] => some (s.goto task .hold)
        | wakeup :: queue => some (s.notifyFront wakeup queue)
      else none
  | .fire task =>
      if s.timer task = .armed then
        some { s with
          timer := Function.update s.timer task .fired
          isTimeOut := Function.update s.isTimeOut task true
          firing := Function.update s.firing task (s.firing task + 1) }
      else none
  | .fireWake task =>
      if 0 < s.firing task then
        some ({ s with firing := Function.update s.firing task (s.firing task - 1) }.wakeupBySelfIo
          task)
      else none

/-- A failed assertion ends the program. -/
def step (s : Monitor) (a : MonitorEvent) : Option Monitor :=
  if s.aborted then none else s.stepLive a

end Monitor

end CppGo.Sync
