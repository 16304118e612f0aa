import CppGo.Lib.Machine
import CppGo.Scheduler.TaskQueue
import CppGo.Timer.TimerManager

/-!
# The loop of a Processer and its sleep

`Processer::Process` around `epoll_wait`: the two queues, the timers, the socket of the
interrupter and the clock, in nanoseconds.  The tasks and callbacks of the Processer are
there with what they do to these.  The other threads add and steal tasks, create and stop
timers, and call `WakeupBySelfIO` and then `InterrupteWaitLoop`.
-/

namespace CppGo.Scheduling

open CppGo.Lib CppGo.Timers

/-- `MIN_WAITE_TIME`, in milliseconds -/
def minWaiteTime : Int := 10

def millisecond : Int := 1000000

/-- `GetLastDuration` at the time `now`, in milliseconds: `duration_cast` truncates, and the
count is cast to `int`. -/
def getLastDuration (m : TimerManager) (now : Int) : Int :=
  match m.timer_map_.nodes.head? with
  | none => minWaiteTime
  | some begin =>
      let dtm := ((begin.key - now).tdiv millisecond).bmod (2 ^ 32)
      if dtm ≤ 0 then 0 else dtm

inductive LoopPc
  | front
  | addEmpty (idle : Bool)
  | addPop (idle : Bool)
  | addPush (idle : Bool) (elements : TaskList)
  /-- `front` behind `AddNewTasks` -/
  | frontAgain
  /-- `GetLastDuration` -/
  | duration
  /-- the call of `epoll_wait` -/
  | enter (timeout : Int)
  /-- in `epoll_wait`, at the latest until then -/
  | wait (deadline : Int)
  /-- the next `recv` of `Interrupter::reset` -/
  | reset
  /-- the other events that `epoll_wait` has returned -/
  | events
  | wakeupTimers
  /-- in a callback of `WakeupTimers` -/
  | callback
  /-- the inner loop, in which the tasks run -/
  | loop
deriving DecidableEq, Repr

def LoopPc.working : LoopPc → Bool
  | reset | events | callback | loop => true
  | _ => false

/-- `bytes` is what the socket of the interrupter holds, and `edge` says that bytes have come
since `epoll_wait` last returned the socket.  `notifiers` is the number of threads between
`WakeupBySelfIO` and `InterrupteWaitLoop`. -/
structure IdleLoop where
  runnableQueue_ : TaskQueue
  newQueue_ : TaskQueue
  timer_manager_ : TimerManager
  now : Int
  bytes : Nat
  edge : Bool
  notifiers : Nat
  pc : LoopPc

inductive LoopEvent
  /-- the next step of `Process` -/
  | process
  /-- `epoll_wait` returns, with the socket of the interrupter among the events or without -/
  | epollReturn (interrupted : Bool)
  /-- `WakeupBySelfIO` on the thread of the Processer -/
  | wakeupBySelfIo (tk : TaskPtr)
  /-- a running task leaves `runnableQueue_` -/
  | leave (tk : TaskPtr)
  /-- `AddTask` of `CreateTask` or `AvgTotalTasks` -/
  | addTask (elements : TaskList)
  /-- `Steal(n)` from `newQueue_` -/
  | stealNew (n : Nat)
  | stealRunnable (n : Nat)
  /-- `AddTimer` and `AddSleeper` -/
  | addTimer (timepoint : Int) (element : TimerElement)
  | stopTimer (it : Nat)
  /-- `WakeupBySelfIO` on another thread -/
  | notify (tk : TaskPtr)
  /-- and its `InterrupteWaitLoop` -/
  | interrupteWaitLoop
  | tick (d : Nat)
deriving DecidableEq, Repr

namespace IdleLoop

def make (now : Int) : IdleLoop :=
  { runnableQueue_ := []
    newQueue_ := []
    timer_manager_ := .make
    now := now
    bytes := 0
    edge := false
    notifiers := 0
    pc := .front }

/-- `epoll_wait` returns the socket of the interrupter. -/
def pending (s : IdleLoop) : Bool := s.edge && decide (0 < s.bytes)

def remaining (s : IdleLoop) : Int :=
  match s.pc with
  | .wait deadline => deadline - s.now
  | _ => 0

def ran (s : IdleLoop) (r : TimerManager × List Observation) : IdleLoop :=
  let woken := r.2.filterMap fun
    | .woke task => some task
    | _ => none
  { s with
    timer_manager_ := r.1
    runnableQueue_ := s.runnableQueue_.pushWithoutLock woken
    pc := if r.1.pass.isSome then .callback else .front }

def epollWait (s : IdleLoop) (timeout : Int) : IdleLoop :=
  { s with pc := .wait (s.now + timeout * millisecond) }

/-- One `recv` of `reset`, which goes on while this gives less than the buffer holds; the
error -1 of an empty socket is the greatest number of type `size_t`. -/
def recv (s : IdleLoop) : IdleLoop :=
  let n := min s.bytes 1024
  { s with bytes := s.bytes - n, pc := if 0 < n ∧ n < 1024 then .reset else .events }

def process (s : IdleLoop) : Option IdleLoop :=
  match s.pc with
  | .front =>
      some { s with pc := if s.runnableQueue_.front.isSome then .loop else .addEmpty true }
  | .addEmpty idle =>
      some { s with
        pc := if s.newQueue_.isEmpty then if idle then .duration else .front else .addPop idle }
  | .addPop idle =>
      let r := s.newQueue_.popAllWithoutLock
      some { s with newQueue_ := r.1, pc := .addPush idle r.2 }
  | .addPush idle elements =>
      some { s with
        runnableQueue_ := s.runnableQueue_.pushWithoutLock elements
        pc := if idle then .frontAgain else .front }
  | .frontAgain =>
      some { s with pc := if s.runnableQueue_.front.isSome then .loop else .duration }
  | .duration => some { s with pc := .enter (getLastDuration s.timer_manager_ s.now) }
  | .enter timeout => some (s.epollWait timeout)
  | .wait _ => none
  | .reset => some s.recv
  | .events => some { s with pc := .wakeupTimers }
  | .wakeupTimers => some (s.ran (s.timer_manager_.wakeupTimers s.now))
  | .callback =>
      match s.timer_manager_.pass with
      | some pass =>
          if s.timer_manager_.timer_map_.contains pass.it then
            some (s.ran (s.timer_manager_.loop pass.now (s.timer_manager_.timer_map_.after pass.it)))
          else none
      | none => none
  | .loop => some { s with pc := .addEmpty false }

def epollReturn (s : IdleLoop) (interrupted : Bool) : Option IdleLoop :=
  match s.pc with
  | .wait _ =>
      if interrupted then if s.pending then some { s with edge := false, pc := .reset } else none
      else some { s with pc := .events }
  | _ => none

def step (s : IdleLoop) : LoopEvent → Option IdleLoop
  | .process => s.process
  | .epollReturn interrupted => s.epollReturn interrupted
  | .wakeupBySelfIo tk =>
      if s.pc.working then
        some { s with runnableQueue_ := s.runnableQueue_.pushWithoutLock [tk] }
      else none
  | .leave tk =>
      if s.pc = .loop then some { s with runnableQueue_ := (s.runnableQueue_.eraseWithoutLock tk).1 }
      else none
  | .addTask elements => some { s with newQueue_ := s.newQueue_.pushWithoutLock elements }
  | .stealNew n => some { s with newQueue_ := (s.newQueue_.popBackWithoutLock n).1 }
  | .stealRunnable n =>
      some { s with runnableQueue_ := (s.runnableQueue_.popBackWithoutLock n).1 }
  | .addTimer timepoint element =>
      some { s with timer_manager_ := s.timer_manager_.insert timepoint element }
  | .stopTimer it => some { s with timer_manager_ := s.timer_manager_.erase it }
  | .notify tk =>
      some { s with
        runnableQueue_ := s.runnableQueue_.pushWithoutLock [tk]
        notifiers := s.notifiers + 1 }
  | .interrupteWaitLoop =>
      if 0 < s.notifiers then
        some { s with bytes := s.bytes + 1, edge := true, notifiers := s.notifiers - 1 }
      else none
  | .tick d => some { s with now := s.now + d }

end IdleLoop

end CppGo.Scheduling
