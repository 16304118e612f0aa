import CppGo.Lib.Arrivals
import CppGo.Lib.Machine
import CppGo.Sync.RingBuffer
import CppGo.Sync.WaitQueue

/-!
# `FastChannelImpl<T>`

`sync/fast_channel_impl.h`.  One event is one critical section under `lock_`
(`Push`, `Pop`, `Close`), or one of the sections outside of it: a wait timer's
callback sets `isTimeOut` and then wakes the task, and a woken call reads
`isTimeOut` and then stops its timer.

Every call of `Push` or `Pop` is a record of the log `calls`; its index stands
for the address of its `Entry`, and the queues hold these addresses.  A variable
of type `T` is `none` until something is assigned to it.
-/

namespace CppGo.Sync

open CppGo.Lib.Arrivals

inductive ChanOp
  | push
  | pop
deriving DecidableEq, Repr

inductive WaitTimer
  | none
  | armed
  /-- the callback has set `isTimeOut` -/
  | begun
  /-- the callback has woken the task -/
  | done
  | stopped
deriving DecidableEq, Repr

inductive CallPhase
  /-- suspended, or woken and not yet switched to -/
  | waiting
  /-- resumed with `isTimeOut` still false: `StopTimer` comes next -/
  | stopping
  | returned (ret : Option Bool)
deriving DecidableEq, Repr

/-- A call of `Push` or `Pop`, with the `Entry` and the locals of its wait.  The
ghost field `wakes` records at the return how often the task was woken since its
suspension. -/
structure Call (T : Type*) where
  op : ChanOp
  task_ : Nat
  t : Option T
  success_ : Option Bool
  isTimeOut : Bool
  timer : WaitTimer
  phase : CallPhase
  blocked : Bool
  wakes : Nat

def Call.isOpen {T : Type*} (c : Call T) : Bool := !(c.phase matches .returned _)

def Call.finished {T : Type*} (op : ChanOp) (task : Nat) (t : Option T) (ret : Bool) : Call T :=
  { op := op, task_ := task, t := t, success_ := some ret, isTimeOut := false, timer := .none,
    phase := .returned (some ret), blocked := false, wakes := 0 }

def Call.entering {T : Type*} (op : ChanOp) (task : Nat) (t : Option T) (timeout : Int) :
    Call T :=
  { op := op, task_ := task, t := t, success_ := none, isTimeOut := false,
    timer := if timeout > 0 then .armed else .none, phase := .waiting, blocked := true,
    wakes := 0 }

/-- The entry of a call: `dummy_` of a queue is `none`. -/
abbrev EntryHook := Option Nat

/-- `pushes` is a ghost: the number of values ever put into the buffer. -/
structure FastChannelImpl (T : Type*) where
  capacity_ : BitVec 64
  closed_ : Bool
  useRingBuffer_ : Bool
  q_ : RingBuffer 64 (Option T)
  lq_ : List (Option T)
  wq_ : WaitQueue1 EntryHook
  rq_ : WaitQueue1 EntryHook
  pushes : Nat

namespace FastChannelImpl

variable {T : Type*}

def make (capacity : BitVec 64) (useRingBuffer : Bool) : FastChannelImpl T :=
  { capacity_ := capacity
    closed_ := false
    useRingBuffer_ := useRingBuffer
    q_ := RingBuffer.make (if useRingBuffer then capacity else 1)
    lq_ := []
    wq_ := WaitQueue1.make none
    rq_ := WaitQueue1.make none
    pushes := 0 }

def size (ch : FastChannelImpl T) : BitVec 64 :=
  if ch.useRingBuffer_ then ch.q_.size else BitVec.ofNat 64 ch.lq_.length

/-- The private `push`; `none` for `false`. -/
def push (ch : FastChannelImpl T) (t : Option T) : Option (FastChannelImpl T) :=
  if ch.useRingBuffer_ then
    (ch.q_.push t).map fun q => { ch with q_ := q, pushes := ch.pushes + 1 }
  else if ch.lq_.length ≥ ch.capacity_.toNat then none
  else some { ch with lq_ := ch.lq_ ++ [t], pushes := ch.pushes + 1 }

def pop (ch : FastChannelImpl T) : Option (Option T × FastChannelImpl T) :=
  if ch.useRingBuffer_ then
    ch.q_.pop.map fun (slot, q) => (slot.join, { ch with q_ := q })
  else match ch.lq_ with
    | [] => none
    | t :: lq => some (t, { ch with lq_ := lq })

def waitq (ch : FastChannelImpl T) : ChanOp → WaitQueue1 EntryHook
  | .push => ch.wq_
  | .pop => ch.rq_

def setWaitq (ch : FastChannelImpl T) (op : ChanOp) (q : WaitQueue1 EntryHook) :
    FastChannelImpl T :=
  match op with
  | .push => { ch with wq_ := q }
  | .pop => { ch with rq_ := q }

def buffer (ch : FastChannelImpl T) : List (Option T) :=
  if ch.useRingBuffer_ then ch.q_.elements.map Option.join else ch.lq_

end FastChannelImpl

/-- The channel, the log of its calls, and of every task how often it is in a run
queue; the ghost `wakes` counts `WakeupBySelfIO` since the last suspension. -/
structure ChannelState (T : Type*) where
  ch : FastChannelImpl T
  calls : List (Call T)
  runq : Nat → Nat
  wakes : Nat → Nat

/-- A `ChanFunctor` runs on the channel, the notifier's `t` and the variable
`*entry->value_`. -/
abbrev ChanFunctor (T : Type*) :=
  FastChannelImpl T → Option T → Option T → FastChannelImpl T × Option T × Option T

inductive ChanEvent (T : Type*)
  | push (task : Nat) (t : T) (timeout : Int)
  | pop (task : Nat) (timeout : Int)
  | close
  /-- the callback of the call's timer starts: `isTimeOut = true` -/
  | fire (call : Nat)
  /-- the callback calls `WakeupBySelfIO` -/
  | fireWake (call : Nat)
  /-- the call's task is switched to again and tests `isTimeOut` -/
  | resume (call : Nat)
  /-- it stops its timer and returns `success_` -/
  | stopTimer (call : Nat)

namespace ChannelState

variable {T : Type*}

/-- All tasks start in one run queue each. -/
def make (capacity : BitVec 64) (useRingBuffer : Bool) : ChannelState T :=
  { ch := FastChannelImpl.make capacity useRingBuffer
    calls := []
    runq := fun _ => 1
    wakes := fun _ => 0 }

def wakeupBySelfIo (s : ChannelState T) (task : Nat) : ChannelState T :=
  { s with
    runq := Function.update s.runq task (s.runq task + 1)
    wakes := Function.update s.wakes task (s.wakes task + 1) }

def suspendBySelfIo (s : ChannelState T) (task : Nat) : ChannelState T :=
  { s with
    runq := Function.update s.runq task (s.runq task - 1)
    wakes := Function.update s.wakes task 0 }

def finish (s : ChannelState T) (op : ChanOp) (task : Nat) (t : Option T) (ret : Bool) :
    ChannelState T :=
  { s with calls := s.calls ++ [Call.finished op task t ret] }

/-- `WriteWaite` and `ReadWaite` up to the switch. -/
def waite (s : ChannelState T) (op : ChanOp) (task : Nat) (t : Option T) (timeout : Int) :
    ChannelState T :=
  suspendBySelfIo
    { s with
      ch := s.ch.setWaitq op ((s.ch.waitq op).push (some s.calls.length))
      calls := s.calls ++ [Call.entering op task t timeout] }
    task

def writeWaite (s : ChannelState T) := s.waite .push
def readWaite (s : ChannelState T) := s.waite .pop

/-- Runs a functor that may be null: the channel, the notifier's `t`, the entry's
value and the new `success_`. -/
def applyFunctor (func : Option (ChanFunctor T)) (ch : FastChannelImpl T)
    (t value : Option T) : FastChannelImpl T × Option T × Option T × Bool :=
  match func with
  | some func => let (ch, t, value) := func ch t value; (ch, t, value, true)
  | none => (ch, t, value, false)

def decide (s : ChannelState T) (ch : FastChannelImpl T) (e : Nat) (entry : Call T)
    (value : Option T) (success : Bool) : ChannelState T :=
  wakeupBySelfIo
    { s with
      ch := ch
      calls := s.calls.set e { entry with t := value, success_ := some success } }
    entry.task_

/-- `WriteNotifyOne` and `ReadNotifyOne`, run by a notifier whose own variable is
`t`; `none` for `false`. -/
def notifyOne (s : ChannelState T) (op : ChanOp) (func : Option (ChanFunctor T))
    (t : Option T) : Option (ChannelState T × Option T) :=
  (s.ch.waitq op).pop.bind fun (hook, q) =>
  hook.bind fun e =>
  (s.calls[e]?).map fun entry =>
    let (ch, t, value, success) := applyFunctor func (s.ch.setWaitq op q) t entry.t
    (s.decide ch e entry value success, t)

def writeNotifyOne (s : ChannelState T) := s.notifyOne .push
def readNotifyOne (s : ChannelState T) := s.notifyOne .pop

/-- `while (NotifyOne(nullptr)) {}`, for at most `n` rounds. -/
def notifyLoop (op : ChanOp) : Nat → ChannelState T → ChannelState T
  | 0, s => s
  | n + 1, s => match s.notifyOne op none none with
    | none => s
    | some (s, _) => notifyLoop op n s

def notifyAll (s : ChannelState T) : ChannelState T :=
  let s := notifyLoop .pop s.ch.rq_.count_ s
  notifyLoop .push s.ch.wq_.count_ s

/-- `[&t](T& p) {p = t; }` -/
def giveToReader : ChanFunctor T := fun ch t _ => (ch, t, t)

/-- `[this](T& p) {pop(p); }` -/
def popToReader : ChanFunctor T := fun ch t p =>
  match ch.pop with
  | some (x, ch) => (ch, t, x)
  | none => (ch, t, p)

/-- `[this](T& p) {push(p); }` -/
def pushFromWriter : ChanFunctor T := fun ch t p => ((ch.push p).getD ch, t, p)

/-- `[&t](T& p) {t = p;}` -/
def takeFromWriter : ChanFunctor T := fun ch _ p => (ch, p, p)

def push (s : ChannelState T) (task : Nat) (v : T) (timeout : Int) : ChannelState T :=
  if s.ch.closed_ then s.finish .push task (some v) false
  else
    let blocks :=
      if timeout = 0 then s.finish .push task (some v) false
      else s.writeWaite task (some v) timeout
    if s.ch.capacity_ = 0 then
      match s.readNotifyOne (some giveToReader) (some v) with
      | some (s, t) => s.finish .push task t true
      | none => blocks
    else
      match s.ch.push (some v) with
      | some ch =>
          let s := { s with ch := ch }
          if ch.size = 1 then
            match s.readNotifyOne (some popToReader) (some v) with
            | some (s, t) => s.finish .push task t true
            | none => s.finish .push task (some v) true
          else s.finish .push task (some v) true
      | none => blocks

def pop (s : ChannelState T) (task : Nat) (timeout : Int) : ChannelState T :=
  if s.ch.closed_ then s.finish .pop task none false
  else
    let blocks :=
      if timeout = 0 then s.finish .pop task none false
      else s.readWaite task none timeout
    if s.ch.capacity_ > 0 then
      match s.ch.pop with
      | some (t, ch) =>
          let s := { s with ch := ch }
          if ch.size = ch.capacity_ - 1 then
            match s.writeNotifyOne (some pushFromWriter) t with
            | some (s, t) => s.finish .pop task t true
            | none => s.finish .pop task t true
          else s.finish .pop task t true
      | none => blocks
    else
      match s.writeNotifyOne (some takeFromWriter) none with
      | some (s, t) => s.finish .pop task t true
      | none => blocks

def close (s : ChannelState T) : ChannelState T :=
  if s.ch.closed_ then s
  else notifyAll { s with ch := { s.ch with closed_ := true } }

/-- A task can call the channel when it runs and is in no other call. -/
def isFree (s : ChannelState T) (task : Nat) : Bool :=
  1 ≤ s.runq task &&
    s.calls.all fun c => c.task_ != task || !c.isOpen

def fire (c : Call T) : Option (Call T) :=
  if c.timer = .armed then some { c with timer := .begun, isTimeOut := true } else none

/-- The code of `WriteWaite` and `ReadWaite` after the switch, up to `StopTimer`;
`wakes` is what the return would record. -/
def resumed (c : Call T) (wakes : Nat) : Call T :=
  if c.timer = .none then { c with phase := .returned c.success_, wakes := wakes }
  else if c.isTimeOut then { c with phase := .returned (some false), wakes := wakes }
  else { c with phase := .stopping }

/-- `StopTimer` and the return of `success_`.  A callback that has started runs on. -/
def timerStopped (c : Call T) (wakes : Nat) : Call T :=
  { c with
    timer := if c.timer = .armed then .stopped else c.timer
    phase := .returned c.success_
    wakes := wakes }

def step (s : ChannelState T) : ChanEvent T → Option (ChannelState T)
  | .push task v timeout => if s.isFree task then some (s.push task v timeout) else none
  | .pop task timeout => if s.isFree task then some (s.pop task timeout) else none
  | .close => some s.close
  | .fire i => (s.calls[i]?).bind fun c => (fire c).map fun c' =>
      { s with calls := s.calls.set i c' }
  | .fireWake i => (s.calls[i]?).bind fun c =>
      if c.timer = .begun then
        some (wakeupBySelfIo { s with calls := s.calls.set i { c with timer := .done } } c.task_)
      else none
  | .resume i => (s.calls[i]?).bind fun c =>
      if c.phase = .waiting ∧ 1 ≤ s.runq c.task_ then
        some { s with calls := s.calls.set i (resumed c (s.wakes c.task_)) }
      else none
  | .stopTimer i => (s.calls[i]?).bind fun c =>
      if c.phase = .stopping then
        some { s with calls := s.calls.set i (timerStopped c (s.wakes c.task_)) }
      else none

end ChannelState

end CppGo.Sync
