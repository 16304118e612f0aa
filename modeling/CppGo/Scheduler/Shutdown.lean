import CppGo.Scheduler.Scheduler

/-!
# Shutdown

`Scheduler::Stop`, the thread of the dispatcher, and the threads of the Processers, which
read `stop_` in `Process` and delete the tasks of their queues with `ReleaseTask`.
-/

namespace CppGo.Scheduling

inductive ReleaseLoop
  | runnable
  | new
deriving DecidableEq, Repr

/-- Where the thread of a Processer is: in the loop of `Process`, or behind it. -/
inductive ReleasePc
  | process
  | empty (q : ReleaseLoop)
  | pop (q : ReleaseLoop)
  | delete (q : ReleaseLoop) (task : Option TaskPtr)
  /-- `delete main_task_` and `active_ = false` -/
  | last
  | exited
deriving DecidableEq, Repr

namespace ReleasePc

def task : ReleasePc → Option TaskPtr
  | delete _ task => task
  | _ => none

/-- `ReleaseTask` will look at `runnableQueue_` again. -/
def BeforeNew : ReleasePc → Prop
  | process | empty .runnable | pop .runnable | delete .runnable _ => True
  | _ => False

/-- `ReleaseTask` will look at `newQueue_` again. -/
def BeforeLast : ReleasePc → Prop
  | last | exited => False
  | _ => True

instance : ∀ pc : ReleasePc, Decidable pc.BeforeLast
  | process | empty _ | pop _ | delete _ _ => .isTrue trivial
  | last | exited => .isFalse id

end ReleasePc

inductive StopPc
  | notCalled
  | join
  /-- `Stop` of the Processer `i` -/
  | processer (i : Nat)
  | returned
deriving DecidableEq, Repr

/-- Where the thread of `DispatcherThread` is; `notStarted` means that `Start` is not through
with `NewProcessThread` and its own call of `AvgTotalTasks`. -/
inductive DispatchThread
  | notStarted
  /-- the head of the loop -/
  | loop
  /-- in its body, before `AvgTotalTasks` -/
  | body
  | calling
  | exited
deriving DecidableEq, Repr

/-- `passed` are the Processers whose threads have read `stop_` as false and act on it.
Ghosts: `queued` are the tasks that were in a queue or in a list of the dispatcher when
`stop_` was set, and `ceased` those that have ended or been suspended since then. -/
structure Shutdown where
  scheduler : Scheduler
  stop_ : Bool
  stop : StopPc
  dispatchThread_ : DispatchThread
  passed : Nat → Bool
  exit : Nat → ReleasePc
  deleted : TaskList
  queued : TaskList
  ceased : TaskList

inductive ShutdownStep
  | scheduler (e : SchedulerStep)
  /-- `Start` is through, and has created the thread of the dispatcher or not -/
  | started (dispatcher : Bool)
  | dispatcherLoop
  /-- `StopTrack` has returned false -/
  | stopTrack
  /-- the thread of `p` reads `stop_` -/
  | isStop (p : Nat)
  /-- the next step of `ReleaseTask` of `p` -/
  | release (p : Nat)
  | stop
deriving DecidableEq, Repr

namespace Processer

def releaseQueue (x : Processer) : ReleaseLoop → TaskQueue
  | .runnable => x.runnableQueue_
  | .new => x.newQueue_

def popRelease (x : Processer) : ReleaseLoop → Processer
  | .runnable => { x with runnableQueue_ := x.runnableQueue_.tail }
  | .new => { x with newQueue_ := x.newQueue_.tail }

def readsStop (x : Processer) : Bool :=
  match x.pc with
  | .front | .addEmpty false => true
  | .loop => x.runningTask_.isSome
  | _ => false

end Processer

namespace Scheduler

def listed (s : Scheduler) : TaskList :=
  ((List.range s.size).flatMap fun p =>
    (s.processers_ p).runnableQueue_ ++ (s.processers_ p).newQueue_) ++
    s.dispatcher.tasks ++ s.dispatcher.slist

/-- The task that the step takes out of its queue because it is suspended or has ended. -/
def leaves (s : Scheduler) : SchedulerStep → Option TaskPtr
  | .process p => match (s.processers_ p).pc with
    | .suspending tk => some tk
    | .doneErase => (s.processers_ p).runningTask_
    | _ => none
  | _ => none

def accesses (s : Scheduler) : SchedulerStep → TaskList
  | .newProcessThread => []
  | .createTask _ => s.free_task_map_.values
  | .addTask k => match s.creating[k]? with
    | some (tk, p) => tk :: (s.processers_ p).newQueue_
    | none => []
  | .process p =>
      (s.processers_ p).runningTask_.toList ++ (s.processers_ p).runnableQueue_ ++
        (s.processers_ p).newQueue_ ++ (s.processers_ p).pc.elements
  | .yield p | .suspendBySelfIo p | .runOn p | .finish p => (s.processers_ p).runningTask_.toList
  | .wakeupBySelfIo tk => [tk]
  | .wakeupPush k => match s.waking[k]? with
    | some (tk, p) => tk :: (s.processers_ p).runnableQueue_
    | none => []
  | .avgTotalTasks => match s.dispatcher with
    | .steal a => a.tasks ++ (s.processers_ a.i).newQueue_
    | .stealRunnable a _ slist =>
        a.tasks ++ slist ++ (s.processers_ a.i).runnableQueue_ ++
          (s.processers_ a.i).runningTask_.toList ++ (s.processers_ a.i).nextTask_.toList
    | .deal a => a.tasks
    | .addTask a slist => a.tasks ++ slist ++ (s.processers_ a.i).newQueue_
    | .left tasks => tasks ++ (s.processers_ 0).newQueue_
    | _ => []

end Scheduler

namespace Shutdown

def make : Shutdown :=
  { scheduler := .make
    stop_ := false
    stop := .notCalled
    dispatchThread_ := .notStarted
    passed := fun _ => false
    exit := fun _ => .process
    deleted := []
    queued := []
    ceased := [] }

/-- The thread whose step it is is there, and has read `stop_` where it has to. -/
def mayStep (S : Shutdown) : SchedulerStep → Bool
  | .newProcessThread => S.dispatchThread_ = .notStarted
  | .process p => S.exit p = .process && (!(S.scheduler.processers_ p).readsStop || S.passed p)
  | .yield p | .suspendBySelfIo p | .runOn p | .finish p => S.exit p = .process
  | .avgTotalTasks => S.dispatchThread_ ≠ .loop && S.dispatchThread_ ≠ .exited
  | _ => true

def afterCall (S : Shutdown) (pc : DispatcherPc) : DispatchThread :=
  if S.dispatchThread_ = .notStarted then .notStarted
  else if pc = .idle then .loop else .calling

def after (S : Shutdown) (t : Scheduler) : SchedulerStep → Shutdown
  | .process p => { S with scheduler := t, passed := Function.update S.passed p false }
  | .avgTotalTasks => { S with scheduler := t, dispatchThread_ := S.afterCall t.dispatcher }
  | _ => { S with scheduler := t }

def schedulerStep (S : Shutdown) (e : SchedulerStep) : Option Shutdown :=
  if S.mayStep e then
    (S.scheduler.step e).map fun t =>
      { S.after t e with
        ceased := if S.stop_ then S.ceased ++ (S.scheduler.leaves e).toList else S.ceased }
  else none

def isStop (S : Shutdown) (p : Nat) : Shutdown :=
  if S.stop_ then { S with exit := Function.update S.exit p (.empty .runnable) }
  else { S with passed := Function.update S.passed p true }

def release (S : Shutdown) (p : Nat) : Option Shutdown :=
  let x := S.scheduler.processers_ p
  match S.exit p with
  | .process | .exited => none
  | .empty q =>
      some { S with
        exit := Function.update S.exit p
          (if (x.releaseQueue q).isEmpty then
            match q with
            | .runnable => .empty .new
            | .new => .last
          else .pop q) }
  | .pop q =>
      some { S with
        scheduler := S.scheduler.setProcesser p (x.popRelease q)
        exit := Function.update S.exit p (.delete q (x.releaseQueue q).head?) }
  | .delete q task =>
      some { S with
        deleted := S.deleted ++ task.toList
        exit := Function.update S.exit p (.empty q) }
  | .last =>
      some { S with
        scheduler := S.scheduler.setProcesser p { x with active_ := false }
        exit := Function.update S.exit p .exited }

def stopStep (S : Shutdown) : Option Shutdown :=
  match S.stop with
  | .notCalled =>
      if S.dispatchThread_ = .notStarted then none
      else some { S with
        stop_ := true
        stop := .join
        queued := S.scheduler.listed
        ceased := [] }
  | .join => if S.dispatchThread_ = .exited then some { S with stop := .processer 0 } else none
  | .processer i =>
      if i < S.scheduler.size then
        if S.exit i = .exited then some { S with stop := .processer (i + 1) } else none
      else some { S with stop := .returned }
  | .returned => none

def step (S : Shutdown) : ShutdownStep → Option Shutdown
  | .scheduler e => S.schedulerStep e
  | .started dispatcher =>
      if S.dispatchThread_ = .notStarted ∧ S.scheduler.dispatcher = .idle then
        some { S with dispatchThread_ := if dispatcher then .loop else .exited }
      else none
  | .dispatcherLoop =>
      if S.dispatchThread_ = .loop then
        some { S with dispatchThread_ := if S.stop_ then .exited else .body }
      else none
  | .stopTrack =>
      if S.dispatchThread_ = .body then some { S with dispatchThread_ := .loop } else none
  | .isStop p =>
      if p < S.scheduler.size ∧ S.exit p = .process ∧ (S.scheduler.processers_ p).readsStop ∧
        S.passed p = false then some (S.isStop p) else none
  | .release p => S.release p
  | .stop => S.stopStep

def accesses (S : Shutdown) : ShutdownStep → TaskList
  | .scheduler e => S.scheduler.accesses e
  | .release p => match S.exit p with
    | .pop q => (S.scheduler.processers_ p).releaseQueue q
    | .delete _ task => task.toList
    | _ => []
  | _ => []

def behind : ReleaseLoop → ReleasePc
  | .runnable => .empty .new
  | .new => .last

inductive Released (S : Shutdown) (p : Nat) : Shutdown → Prop
  | empty {q : ReleaseLoop} (hexit : S.exit p = .empty q) :
      Released S p { S with
        exit := Function.update S.exit p
          (if ((S.scheduler.processers_ p).releaseQueue q).isEmpty then behind q else .pop q) }
  | pop {q : ReleaseLoop} (hexit : S.exit p = .pop q) :
      Released S p { S with
        scheduler := S.scheduler.setProcesser p ((S.scheduler.processers_ p).popRelease q)
        exit := Function.update S.exit p
          (.delete q ((S.scheduler.processers_ p).releaseQueue q).head?) }
  | delete {q : ReleaseLoop} {task : Option TaskPtr} (hexit : S.exit p = .delete q task) :
      Released S p { S with
        deleted := S.deleted ++ task.toList
        exit := Function.update S.exit p (.empty q) }
  | last (hexit : S.exit p = .last) :
      Released S p { S with
        scheduler := S.scheduler.setProcesser p { S.scheduler.processers_ p with active_ := false }
        exit := Function.update S.exit p .exited }

theorem released {S T : Shutdown} {p : Nat} (hs : S.release p = some T) : S.Released p T := by
  unfold release at hs
  simp only at hs
  split at hs
  case h_1 | h_2 => cases hs
  case h_3 q hexit =>
    cases hs
    cases q <;> exact .empty hexit
  case h_4 hexit =>
    cases hs
    exact .pop hexit
  case h_5 hexit =>
    cases hs
    exact .delete hexit
  case h_6 hexit =>
    cases hs
    exact .last hexit

theorem Released.ne_process {S T : Shutdown} {p : Nat} (h : S.Released p T) :
    S.exit p ≠ .process := by
  cases h with
  | empty hexit | pop hexit | delete hexit | last hexit =>
      rw [hexit]
      exact ReleasePc.noConfusion

end Shutdown

end CppGo.Scheduling
