import Mathlib.Data.Option.Basic
import Mathlib.Logic.Function.Basic

/-!
# The life of a scheduler

The constructor, `Start`, `Stop` from any thread, and the threads that they create or wait
for.  What a Processer does in `Process` is not followed here: whatever its tasks are, it
reads `stop_` again and again, and one of them may call `Stop`.
-/

namespace CppGo.Scheduling

inductive StartPc
  | notCalled
  /-- the loop that calls `NewProcessThread`, with `n` turns to go -/
  | newProcessThread (n : Nat) (dispatcher : Bool)
  /-- in `NewProcessThread`, whose thread is there, before `push_back` -/
  | pushBack (n : Nat) (dispatcher : Bool)
  /-- `AvgTotalTasks`, and the thread of the dispatcher if there is to be one -/
  | dispatchThread (dispatcher : Bool)
  /-- before `mainProc->Process()` -/
  | mainProc
  | process
  | returned
deriving DecidableEq, Repr

/-- A call of `Process`; `running` is the part in its loops. -/
inductive ProcessCall
  | notCalled
  | running
  /-- in `ReleaseTask`, before `active_ = false` -/
  | releasing
  | returned
deriving DecidableEq, Repr

inductive DispatcherState
  | absent
  | running
  | exited
  | joined
deriving DecidableEq, Repr

/-- Who calls `Stop`: the program on a thread of its own, which the destructor belongs to, or a
task that runs on the Processer `i`. -/
inductive Caller
  | user (k : Nat)
  | coroutine (i : Nat)
deriving DecidableEq, Repr

/-- The threads of the program, among them the one that calls `Start`, and those that
`NewProcessThread` has created. -/
inductive Thread
  | user (k : Nat)
  | processer (i : Nat)
deriving DecidableEq, Repr

/-- Where `Stop` is behind the lock of `stopMtx_`; `n` is its local variable. -/
inductive HolderPc
  /-- at `if (stop_) return;` -/
  | check
  /-- at the thread of the dispatcher -/
  | dispatcher
  /-- the loop, before `Stop` of the Processer `i` -/
  | processer (i n : Nat)
  /-- in `thread_->join()` -/
  | join (i n : Nat)
  /-- in the loop on `active_` -/
  | active (i n : Nat)
deriving DecidableEq, Repr

def HolderPc.waitsFor : HolderPc → Option Nat
  | join i _ | active i _ => some i
  | _ => none

/-- `started_` is the thread that has locked it, `size` the size of `processers_`, `joinable`
what `thread_->joinable()` says of a Processer.  `stop` is the call of `Stop` that holds
`stopMtx_`, and `blocked` are the calls that wait for it. -/
structure Lifecycle where
  started_ : Option Nat
  start : StartPc
  size : Nat
  process : Nat → ProcessCall
  active_ : Nat → Bool
  joinable : Nat → Bool
  dispatchThread_ : DispatcherState
  stop_ : Bool
  stop : Option (Caller × HolderPc)
  blocked : List Caller

inductive LifecycleStep
  /-- the thread `k` calls `Start` -/
  | callStart (k : Nat) (minThreadNumber maxThreadNumber : Int) (hardware_concurrency : Nat)
  /-- the next step of `Start` -/
  | start
  /-- `Process` of `i` reads `stop_` -/
  | isStop (i : Nat)
  /-- it is through with `ReleaseTask` and returns -/
  | returnProcess (i : Nat)
  | dispatcherExit
  | callStop (c : Caller)
  /-- the call of `c` locks `stopMtx_` -/
  | lock (c : Caller)
  /-- the next step of the call that holds it -/
  | stop
deriving DecidableEq, Repr

namespace Lifecycle

def make : Lifecycle :=
  { started_ := none
    start := .notCalled
    size := 1
    process := fun _ => .notCalled
    active_ := fun _ => true
    joinable := fun _ => false
    dispatchThread_ := .absent
    stop_ := false
    stop := none
    blocked := [] }

def inStop (S : Lifecycle) (c : Caller) : Bool := decide (c ∈ S.blocked) || S.stop.any (·.1 = c)

def inStart (S : Lifecycle) (k : Nat) : Bool := S.started_ = some k && S.start ≠ .returned

def threadNumbers (minThreadNumber maxThreadNumber : Int) (hardware_concurrency : Nat) :
    Int × Int :=
  let minThreadNumber :=
    if minThreadNumber < 1 then (hardware_concurrency : Int) else minThreadNumber
  (minThreadNumber,
    if maxThreadNumber = 0 ∨ maxThreadNumber < minThreadNumber then minThreadNumber
    else maxThreadNumber)

/-- `Start` up to its loop.  The second call throws. -/
def callStart (S : Lifecycle) (k : Nat) (numbers : Int × Int) : Lifecycle :=
  match S.started_ with
  | some _ => S
  | none =>
      { S with
        started_ := some k
        start := .newProcessThread (numbers.1 - 1).toNat (numbers.2 > 1) }

def startStep (S : Lifecycle) : Option Lifecycle :=
  match S.start with
  | .newProcessThread (n + 1) dispatcher =>
      some { S with
        process := Function.update S.process S.size .running
        joinable := Function.update S.joinable S.size true
        start := .pushBack n dispatcher }
  | .pushBack n dispatcher =>
      some { S with size := S.size + 1, start := .newProcessThread n dispatcher }
  | .newProcessThread 0 dispatcher => some { S with start := .dispatchThread dispatcher }
  | .dispatchThread dispatcher =>
      some { S with
        dispatchThread_ := if dispatcher then .running else .absent
        start := .mainProc }
  | .mainProc =>
      some { S with process := Function.update S.process 0 .running, start := .process }
  | .notCalled | .process | .returned => none

def isStop (S : Lifecycle) (i : Nat) : Lifecycle :=
  if S.stop_ then { S with process := Function.update S.process i .releasing } else S

def returnProcess (S : Lifecycle) (i : Nat) : Lifecycle :=
  { S with
    active_ := Function.update S.active_ i false
    process := Function.update S.process i .returned
    start := if i = 0 then .returned else S.start }

/-- `Processer::Stop` of `i`, up to its wait.  A thread that joins itself gets an exception,
which leaves `Stop`. -/
def processerStop (S : Lifecycle) (c : Caller) (i n : Nat) : Lifecycle :=
  if 0 < i ∧ S.joinable i then
    if c = .coroutine i then { S with stop := none } else { S with stop := some (c, .join i n) }
  else if S.active_ i then { S with stop := some (c, .active i n) }
  else { S with stop := some (c, .processer (i + 1) n) }

def stopStep (S : Lifecycle) (c : Caller) : HolderPc → Option Lifecycle
  | .check =>
      if S.stop_ then some { S with stop := none }
      else some { S with stop_ := true, stop := some (c, .dispatcher) }
  | .dispatcher =>
      match S.dispatchThread_ with
      | .running => none
      | .exited => some { S with
          dispatchThread_ := .joined
          stop := some (c, .processer 0 S.size) }
      | .absent | .joined => some { S with stop := some (c, .processer 0 S.size) }
  | .processer i n =>
      if i < n then some (S.processerStop c i n) else some { S with stop := none }
  | .join i n =>
      if S.process i = .returned then
        some { S with
          joinable := Function.update S.joinable i false
          stop := some (c, .processer (i + 1) n) }
      else none
  | .active i n =>
      if S.active_ i then some S else some { S with stop := some (c, .processer (i + 1) n) }

def step (S : Lifecycle) : LifecycleStep → Option Lifecycle
  | .callStart k minThreadNumber maxThreadNumber hardware_concurrency =>
      if S.inStop (.user k) ∨ S.inStart k then none
      else some (S.callStart k (threadNumbers minThreadNumber maxThreadNumber hardware_concurrency))
  | .start => S.startStep
  | .isStop i =>
      if S.process i = .running ∧ S.inStop (.coroutine i) = false then some (S.isStop i) else none
  | .returnProcess i => if S.process i = .releasing then some (S.returnProcess i) else none
  | .dispatcherExit =>
      if S.dispatchThread_ = .running ∧ S.stop_ then some { S with dispatchThread_ := .exited }
      else none
  | .callStop c =>
      if S.inStop c then none
      else match c with
        | .user k => if S.inStart k then none else some { S with blocked := S.blocked ++ [c] }
        | .coroutine i =>
            if S.process i = .running then some { S with blocked := S.blocked ++ [c] } else none
  | .lock c =>
      if c ∈ S.blocked ∧ S.stop = none then
        some { S with blocked := S.blocked.erase c, stop := some (c, .check) }
      else none
  | .stop => S.stop.bind fun call => S.stopStep call.1 call.2

def processThread (S : Lifecycle) : Nat → Option Thread
  | 0 => S.started_.map .user
  | i + 1 => some (.processer (i + 1))

def thread (S : Lifecycle) : Caller → Option Thread
  | .user k => some (.user k)
  | .coroutine i => S.processThread i

def Executes (S : Lifecycle) (t : Thread) (i : Nat) : Prop :=
  S.processThread i = some t ∧ S.process i ≠ .notCalled

/-- The call of `Stop` waits in `Processer::Stop` of `i`. -/
def Waits (S : Lifecycle) (c : Caller) (i : Nat) : Prop :=
  ∃ pc, S.stop = some (c, pc) ∧ pc.waitsFor = some i

/-- The call of `Stop` whose next step sets `stop_`. -/
def setter (S : Lifecycle) : Option Caller :=
  if S.stop_ then none else (S.stop.filter (·.2 = .check)).map (·.1)

/-- `stop_` is set when `Start` has come to `mainProc->Process()`, and not by a task of the
main Processer. -/
def StopsRunning (S : Lifecycle) : LifecycleStep → Prop
  | .stop => ∀ c ∈ S.setter, S.process 0 ≠ .notCalled ∧ c ≠ .coroutine 0
  | _ => True

instance (S : Lifecycle) : ∀ e, Decidable (S.StopsRunning e)
  | .stop => inferInstanceAs (Decidable (∀ c ∈ S.setter, _))
  | .callStart _ _ _ _ | .start | .isStop _ | .returnProcess _ | .dispatcherExit | .callStop _ |
    .lock _ => .isTrue trivial

end Lifecycle

end CppGo.Scheduling
