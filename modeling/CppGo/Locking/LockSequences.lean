import CppGo.Lib.LockMachine
import Mathlib.Order.Fin.Basic

/-!
# The spin locks of the library

Every function as what it does with the `LFLock`s, in the order of the source.  Which
Processer a task or a timer belongs to, and what a branch on data finds, is a choice.  Copying
and destroying the values and functions of the user takes no lock, nor does a `WaitQueue1`, whose lock
is a `FakeLock`.

The Processers are numbered over all schedulers, and the scheduler of `getInstance` is number 0.
-/

namespace CppGo.Locking

open CppGo.Lib CppGo.Lib.LockCode

inductive LFLock
  /-- `FastChannelImpl::lock_` -/
  | channel (c : Nat)
  /-- `CoMutex::lock_` -/
  | mutex (m : Nat)
  /-- `Timer::lock_` -/
  | timer (id : Nat)
  /-- `TimerManager::map_lock_` of a Processer -/
  | map (p : Nat)
  | runnableQueue (p : Nat)
  | newQueue (p : Nat)
  /-- `Scheduler::lock_free_task_map_` -/
  | freeTaskMap (s : Nat)
  deriving DecidableEq

abbrev Code := LockCode LFLock

/-! ## TSQueue

Each of these is one scope of the lock of the queue; `pop`, `pop_all` and `pop_back` look whether
the queue is empty before they take it. -/

namespace TSQueue

def front (q : LFLock) : Code := guarded q .skip

def next (q : LFLock) : Code := guarded q .skip

def empty (q : LFLock) : Code := guarded q .skip

def size (q : LFLock) : Code := guarded q .skip

def push (q : LFLock) : Code := guarded q .skip

def erase (q : LFLock) : Code := guarded q .skip

def pop (q : LFLock) : Code := opt (guarded q .skip)

def popAll (q : LFLock) : Code := opt (guarded q .skip)

def popBack (q : LFLock) : Code := opt (guarded q .skip)

/-- `push` of an `SList`, which does nothing with an empty one. -/
def pushList (q : LFLock) : Code := opt (guarded q .skip)

end TSQueue

/-! ## Timers -/

namespace TimerManager

def addTimer (p : Nat) : Code := block [.acquire (.map p), .release (.map p)]

def addSleeper (p : Nat) : Code := block [.acquire (.map p), .release (.map p)]

def getLastDuration (p : Nat) : Code := guarded (.map p) .skip

def stopTimer (p : Nat) : Code := guarded (.map p) .skip

end TimerManager

namespace Processer

def wakeupBySelfIo (p : Nat) : Code := TSQueue.push (.runnableQueue p)

def suspendBySelfIo (p : Nat) : Code := guarded (.runnableQueue p) .skip

def addTask (p : Nat) : Code := guarded (.newQueue p) .skip

def addMilliTimer (p : Nat) : Code := TimerManager.addTimer p

def stopTimer (p : Nat) : Code := TimerManager.stopTimer p

def staticCoYield : Code := .switch

def swapIn : Code := .switch

end Processer

/-- `WakeupBySelfIO` of a task, on the Processer of that task. -/
def wakeup : Code := .choose Processer.wakeupBySelfIo

namespace Scheduler

def createMilliTimer : Code := .choose Processer.addMilliTimer

def stopTimer (id : Nat) : Code :=
  opt                                            -- `!id`
    (guarded (.timer id)
      (opt                                       -- `!id->processer_`
        (.choose Processer.stopTimer)))

def getFreeTaskList (s : Nat) : Code := guarded (.freeTaskMap s) .skip

def add2FreeTaskList (s : Nat) : Code := guarded (.freeTaskMap s) .skip

def createTask (s : Nat) : Code :=
  block [getFreeTaskList s, .choose Processer.addTask]

end Scheduler

/-! ## Channels -/

namespace FastChannelImpl

/-- `WriteWaite` and `ReadWaite`, which differ in the queue of waiters. -/
def waite (c : Nat) (timeout : Int) : Code :=
  block [
    if 0 < timeout then Scheduler.createMilliTimer else .skip,
    .choose Processer.suspendBySelfIo,
    .release (.channel c),
    Processer.staticCoYield,
    if 0 < timeout then opt (.choose Scheduler.stopTimer) else .skip]

def writeWaite := waite

def readWaite := waite

/-- `WriteNotifyOne` and `ReadNotifyOne`: what follows when a waiter has been notified, and
when there is none. -/
def notifyOne (notified none : Code) : Code := alt (block [wakeup, notified]) none

def writeNotifyOne := notifyOne

def readNotifyOne := notifyOne

def notifyAll : Code :=
  block [.loop (readNotifyOne .skip .skip), .loop (writeNotifyOne .skip .skip)]

def push (c : Nat) (timeout : Int) : Code :=
  let ret := .release (.channel c)
  let wait := if timeout = 0 then ret else writeWaite c timeout
  block [
    .acquire (.channel c),
    alt ret                                      -- `closed_`
      (alt
        (readNotifyOne ret wait)                 -- `!capacity_`
        (alt
          (alt (readNotifyOne ret ret) ret)      -- `push(t)`; `Size() == 1`
          wait))]

def pop (c : Nat) (timeout : Int) : Code :=
  let ret := .release (.channel c)
  let wait := if timeout = 0 then ret else readWaite c timeout
  block [
    .acquire (.channel c),
    alt ret                                      -- `closed_`
      (alt
        (alt                                     -- `capacity_ > 0`
          (alt (writeNotifyOne ret ret) ret)     -- `pop(t)`; `Size() == capacity_ - 1`
          wait)
        (writeNotifyOne ret wait))]

def close (c : Nat) : Code :=
  let ret := .release (.channel c)
  block [.acquire (.channel c), alt ret (block [notifyAll, ret])]

end FastChannelImpl

/-! ## Mutexes and condition variables -/

namespace CoMutex

/-- What follows the try after the first yield. -/
def lockWait (m : Nat) : Code :=
  .choose fun p => block [
    Processer.suspendBySelfIo p,
    .acquire (.mutex m),
    alt
      (block [Processer.wakeupBySelfIo p, .release (.mutex m)])
      (block [.release (.mutex m), Processer.staticCoYield])]

def lock (m : Nat) : Code :=
  block [
    .acquire (.mutex m),
    alt (.release (.mutex m))                    -- `!owner_task_`
      (block [
        .release (.mutex m),
        Processer.staticCoYield,
        .tryAcquire (.mutex m)
          (alt (.release (.mutex m)) (block [.release (.mutex m), lockWait m]))
          (lockWait m)])]

def tryLock (m : Nat) : Code := guarded (.mutex m) .skip

def unlock (m : Nat) : Code :=
  block [
    .acquire (.mutex m),
    alt (block [.release (.mutex m), wakeup])    -- a task in `waite_queue_`
      (.release (.mutex m))]

end CoMutex

namespace CoConditionVariable

def wait (m : Nat) (timeout : Int) : Code :=
  block [
    if 0 < timeout then Scheduler.createMilliTimer else .skip,
    .choose Processer.suspendBySelfIo,
    CoMutex.unlock m,
    Processer.staticCoYield,
    CoMutex.lock m,
    if 0 < timeout then opt (.choose Scheduler.stopTimer) else .skip]

def notifyOne : Code := opt wakeup

def notifyAll : Code := .loop wakeup

end CoConditionVariable

/-! ## The work of a Processer -/

/-- A callback of a timer, which makes any calls that do not switch. -/
def callback : Code :=
  .loop (oneOf [
    wakeup,
    Scheduler.createMilliTimer,
    .choose Scheduler.stopTimer,
    .choose Scheduler.createTask,
    .choose fun c => FastChannelImpl.push c 0,
    .choose fun c => FastChannelImpl.pop c 0,
    .choose FastChannelImpl.close])

def TimerManager.wakeupTimers (p : Nat) : Code :=
  block [
    .acquire (.map p),
    alt (.release (.map p))                      -- `timer_map_.empty()`
      (block [
        .loop (alt
          (block [.release (.map p), callback, .acquire (.map p)])    -- `TimerTimeout`
          wakeup),                                                    -- `TaskTimeout`
        .release (.map p)])]

namespace Processer

def waitLoop : Code := .loop (block [wakeup, opt (.choose Scheduler.stopTimer)])

/-- `AddNewTasks`: what follows when it returns true, and when it returns false. -/
def addNewTasks (p : Nat) (added none : Code) : Code :=
  block [
    TSQueue.empty (.newQueue p),
    alt none
      (block [
        TSQueue.popAll (.newQueue p),
        TSQueue.pushList (.runnableQueue p),
        added])]

def doneTask (p : Nat) : Code :=
  block [
    TSQueue.next (.runnableQueue p),
    TSQueue.erase (.runnableQueue p),
    guarded (.runnableQueue p) (Scheduler.add2FreeTaskList 0)]

def runTask (p : Nat) : Code :=
  block [
    swapIn,
    oneOf [
      guarded (.runnableQueue p) .skip,          -- `TaskState::block`
      guarded (.runnableQueue p) .skip,          -- `TaskState::runnable`
      doneTask p]]                               -- `TaskState::done`

def runTasks (p : Nat) : Code :=
  block [.loop (runTask p), opt (addNewTasks p .skip .skip)]

def idle (p : Nat) : Code :=
  block [TimerManager.getLastDuration p, waitLoop, TimerManager.wakeupTimers p]

def releaseTask (p : Nat) : Code :=
  block [
    .loop (block [TSQueue.empty (.runnableQueue p), TSQueue.pop (.runnableQueue p)]),
    TSQueue.empty (.runnableQueue p),
    .loop (block [TSQueue.empty (.newQueue p), TSQueue.pop (.newQueue p)]),
    TSQueue.empty (.newQueue p)]

def process (p : Nat) : Code :=
  block [
    .loop (block [
      TSQueue.front (.runnableQueue p),
      alt (runTasks p)
        (addNewTasks p
          (block [TSQueue.front (.runnableQueue p), alt (runTasks p) (idle p)])
          (idle p))]),
    releaseTask p]

def runnableSize (p : Nat) : Code :=
  block [TSQueue.size (.runnableQueue p), TSQueue.size (.newQueue p)]

def steal (p n : Nat) : Code :=
  if 0 < n then
    block [
      TSQueue.popBack (.newQueue p),
      opt (guarded (.runnableQueue p) .skip)]    -- `slist.size() >= n`
  else
    block [TSQueue.popAll (.newQueue p), guarded (.runnableQueue p) .skip]

def sleep (milliseconds : Int) : Code :=
  block [
    if 0 < milliseconds then
      .choose fun p => block [suspendBySelfIo p, TimerManager.addSleeper p]
    else .skip,
    staticCoYield]

end Processer

def Scheduler.avgTotalTasks (processers_ : List Nat) : Code :=
  let sizes := block (processers_.map Processer.runnableSize)
  if processers_.length < 2 then .skip
  else block [
    sizes,
    opt (block [                                 -- `avg <= 0`
      block (processers_.map fun p => opt (.choose (Processer.steal p))),
      block (processers_.map fun p => opt (Processer.addTask p)),
      opt (Processer.addTask (processers_.headD 0)),
      sizes])]

def InnerIoWait.poll (timeout : Int) : Code :=
  opt (block [                                   -- `PollsetAdd(net_fd, events) < 0`
    if 0 < timeout then Scheduler.createMilliTimer else .skip,
    .choose Processer.suspendBySelfIo,
    Processer.staticCoYield])

/-! ## The calls -/

inductive Call
  | push (c : Nat) (timeout : Int)
  | pop (c : Nat) (timeout : Int)
  | close (c : Nat)
  | lock (m : Nat)
  | tryLock (m : Nat)
  | unlock (m : Nat)
  | wait (m : Nat) (timeout : Int)
  | notifyOne
  | notifyAll
  | createMilliTimer
  | stopTimer (id : Nat)
  | sleep (milliseconds : Int)
  | coYield
  | poll (timeout : Int)
  | createTask (s : Nat)
  /-- The end of `Task::Run`. -/
  | finish

def Call.code : Call → Code
  | push c timeout => FastChannelImpl.push c timeout
  | pop c timeout => FastChannelImpl.pop c timeout
  | close c => FastChannelImpl.close c
  | lock m => CoMutex.lock m
  | tryLock m => CoMutex.tryLock m
  | unlock m => CoMutex.unlock m
  | wait m timeout => CoConditionVariable.wait m timeout
  | notifyOne => CoConditionVariable.notifyOne
  | notifyAll => CoConditionVariable.notifyAll
  | createMilliTimer => Scheduler.createMilliTimer
  | stopTimer id => Scheduler.stopTimer id
  | sleep milliseconds => Processer.sleep milliseconds
  | coYield => Processer.staticCoYield
  | poll timeout => InnerIoWait.poll timeout
  | createTask s => Scheduler.createTask s
  | finish => Processer.staticCoYield

inductive ThreadCall
  | process (p : Nat)
  | avgTotalTasks (processers_ : List Nat)
  | createTask (s : Nat)
  | createMilliTimer
  | stopTimer (id : Nat)
  | tryPush (c : Nat)
  | tryPop (c : Nat)
  | close (c : Nat)

def ThreadCall.code : ThreadCall → Code
  | process p => Processer.process p
  | avgTotalTasks processers_ => Scheduler.avgTotalTasks processers_
  | createTask s => Scheduler.createTask s
  | createMilliTimer => Scheduler.createMilliTimer
  | stopTimer id => Scheduler.stopTimer id
  | tryPush c => FastChannelImpl.push c 0
  | tryPop c => FastChannelImpl.pop c 0
  | close c => FastChannelImpl.close c

variable {ι κ : Type*} [DecidableEq ι] [DecidableEq κ]

abbrev State (ι κ : Type*) := LockMachine.State LFLock ι κ

abbrev Event (ι κ : Type*) := LockMachine.Event ι κ Call ThreadCall

def step : State ι κ → Event ι κ → Option (State ι κ) :=
  LockMachine.step Call.code ThreadCall.code

end CppGo.Locking
