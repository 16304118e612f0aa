import CppGo.Scheduler.IdleLoop
import CppGo.Scheduler.Scheduler

/-!
# `Processer::sleep`

The scheduler with the timers of every Processer.  A task that sleeps leaves its queue by
`SuspendBySelfIO`, puts an element into the map of its Processer and switches out, and a
pass of `WakeupTimers` calls `WakeupBySelfIO` on it.  Tasks that wait for something else are
woken by the steps of the scheduler.  No timer is stopped.
-/

namespace CppGo.Scheduling

open CppGo.Lib CppGo.Timers

/-- What `AddSleeper` has put into the map of a Processer. -/
structure Sleeper where
  processer : Nat
  id : Nat
  deadline : Int
deriving DecidableEq, Repr

/-- A call of `WakeupBySelfIO`, in a pass with the clock value `now`; `queued` says that the
task was in a queue. -/
structure Wake where
  now : Int
  queued : Bool
deriving DecidableEq, Repr

/-- A call of `sleep` with a positive argument. -/
structure SleepCall where
  sleeper : Option Sleeper
  wakes : List Wake
deriving DecidableEq, Repr

def SleepCall.make : SleepCall := { sleeper := none, wakes := [] }

/-- `milliseconds` is the argument of the call that the task of a Processer makes, up to
`AddSleeper`.  The last two fields are read by proofs only: the calls of each task, the
newest first, and the elements that were due when the last pass of a Processer started. -/
structure SleepSystem where
  scheduler : Scheduler
  timer_manager_ : Nat → TimerManager
  milliseconds : Nat → Option Int
  calls : TaskPtr → List SleepCall
  due : Nat → List Nat

inductive SleepEvent
  /-- a step of the scheduler that is none of the following -/
  | scheduler (e : SchedulerStep)
  /-- the running task of `p` calls `sleep` -/
  | sleep (p : Nat) (milliseconds : Int)
  /-- it is back from `SuspendBySelfIO` and calls `AddSleeper` -/
  | addSleeper (p : Nat) (now : Int)
  | createMilliTimer (p : Nat) (now duration : Int) (timer_call_back_ : Nat)
  /-- `WakeupTimers` of `p` up to its first callback -/
  | wakeupTimers (p : Nat) (now : Int)
  /-- the callback returns and `WakeupTimers` goes on -/
  | callbackReturn (p : Nat)
deriving DecidableEq, Repr

namespace Scheduler

def queued (s : Scheduler) (t : TaskPtr) : Bool :=
  ((List.range s.size).any fun p =>
    decide (t ∈ (s.processers_ p).runnableQueue_) || decide (t ∈ (s.processers_ p).newQueue_) ||
      decide (t ∈ (s.processers_ p).pc.elements)) ||
    decide (t ∈ s.dispatcher.tasks) || decide (t ∈ s.dispatcher.slist)

end Scheduler

def wokenTask : Observation → Option TaskPtr
  | .woke task => some task
  | _ => none

namespace SleepSystem

def make : SleepSystem :=
  { scheduler := .make
    timer_manager_ := fun _ => .make
    milliseconds := fun _ => none
    calls := fun _ => []
    due := fun _ => [] }

def asleep (s : SleepSystem) (t : TaskPtr) : Bool :=
  match s.calls t with
  | c :: _ => c.wakes.isEmpty
  | [] => false

def apart (s : SleepSystem) : SchedulerStep → Bool
  | .process p => match (s.scheduler.processers_ p).pc with
    | .waitLoop => false
    | .suspended _ => (s.milliseconds p).isNone
    | _ => true
  | .runOn p => (s.milliseconds p).isNone
  | .wakeupBySelfIo t => !s.asleep t
  | _ => true

def setManager (s : SleepSystem) (p : Nat) (m : TimerManager) : SleepSystem :=
  { s with timer_manager_ := Function.update s.timer_manager_ p m }

def modifyCall (s : SleepSystem) (t : TaskPtr) (f : SleepCall → SleepCall) : SleepSystem :=
  { s with calls := Function.update s.calls t ((s.calls t).modifyHead f) }

/-- `sleep` up to the critical section of `SuspendBySelfIO`. -/
def sleep (s : SleepSystem) (p : Nat) (tk : TaskPtr) (milliseconds : Int) : SleepSystem :=
  { s with
    scheduler := s.scheduler.suspendBySelfIo p tk
    milliseconds := Function.update s.milliseconds p (some milliseconds)
    calls := Function.update s.calls tk (.make :: s.calls tk) }

def addSleeper (s : SleepSystem) (p q : Nat) (tk : TaskPtr) (now milliseconds : Int) :
    SleepSystem :=
  let deadline := now + milliseconds * millisecond
  let m := s.timer_manager_ q
  { (s.setManager q (m.insert deadline (.taskTimeout tk))).modifyCall tk fun c =>
      { c with sleeper := some ⟨q, m.timer_map_.nextId, deadline⟩ } with
    milliseconds := Function.update s.milliseconds p none }

def wakeup (now : Int) (s : SleepSystem) (t : TaskPtr) : SleepSystem :=
  { s.modifyCall t fun c => { c with wakes := c.wakes ++ [⟨now, s.scheduler.queued t⟩] } with
    scheduler := s.scheduler.wakeupBySelfIo t }

def toFront (s : SleepSystem) (p : Nat) : SleepSystem :=
  { s with
    scheduler := s.scheduler.setProcesser p { s.scheduler.processers_ p with pc := .front } }

def ran (s : SleepSystem) (p : Nat) (now : Int) (r : TimerManager × List Observation) :
    SleepSystem :=
  let s := (r.2.filterMap wokenTask).foldl (wakeup now) (s.setManager p r.1)
  if r.1.pass.isSome then s else s.toFront p

/-- `WakeupTimers` of `p` up to its first callback. -/
def wakeupTimers (s : SleepSystem) (p : Nat) (now : Int) : SleepSystem :=
  let m := s.timer_manager_ p
  let due := m.timer_map_.nodes.filter fun n => n.key ≤ now
  { s with due := Function.update s.due p (due.map Node.id) }.ran p now (m.wakeupTimers now)

def step (s : SleepSystem) : SleepEvent → Option SleepSystem
  | .scheduler e =>
      if s.apart e then (s.scheduler.step e).map fun t => { s with scheduler := t } else none
  | .sleep p milliseconds => match (s.scheduler.processers_ p).pc with
    | .exec tk =>
        if milliseconds > 0 then some (s.sleep p tk milliseconds)
        else (s.scheduler.step (.yield p)).map fun t => { s with scheduler := t }
    | _ => none
  | .addSleeper p now => match (s.scheduler.processers_ p).pc, s.milliseconds p with
    | .suspended tk, some milliseconds => match (s.scheduler.task tk).proc_ with
      | some q => some (s.addSleeper p q tk now milliseconds)
      | none => some { s with scheduler := s.scheduler.assert false }
    | _, _ => none
  | .createMilliTimer p now duration timer =>
      let m := s.timer_manager_ p
      some (s.setManager p (m.insert (now + duration * millisecond) (.timerTimeout timer)))
  | .wakeupTimers p now =>
      if p < s.scheduler.size ∧ (s.scheduler.processers_ p).pc = .waitLoop ∧
          (s.timer_manager_ p).pass = none then
        some (s.wakeupTimers p now)
      else none
  | .callbackReturn p =>
      let m := s.timer_manager_ p
      match m.pass with
      | some pass =>
          if m.timer_map_.contains pass.it then
            some (s.ran p pass.now (m.loop pass.now (m.timer_map_.after pass.it)))
          else none
      | none => none

end SleepSystem

end CppGo.Scheduling
