import CppGo.Lib.Machine
import CppGo.Lib.Multimap
import CppGo.Scheduler.Processer
import Mathlib.Logic.Function.Basic

/-!
# The scheduler

Any number of Processers, the threads that create and wake up tasks, and the dispatcher.  A
step is one critical section of a queue, or what a thread does between two of them.  The
scheduler is not stopped.
-/

namespace CppGo.Scheduling

open CppGo.Lib

/-- The local variables of `AvgTotalTasks`; `i` is the one of its two loops. -/
structure Averaging where
  cacheTaskCounts : List Nat
  avg : Nat
  i : Nat
  tasks : TaskList
deriving DecidableEq, Repr

inductive DispatcherPc
  | idle
  /-- `runnableQueue_.size()` of the Processer after the counted ones -/
  | sizeRunnable (cacheTaskCounts : List Nat)
  /-- its `newQueue_.size()` -/
  | sizeNew (cacheTaskCounts : List Nat) (size : Nat)
  /-- the loop that calls `Steal` -/
  | steal (a : Averaging)
  /-- in `Steal(n)`, which has taken `slist` from `newQueue_` -/
  | stealRunnable (a : Averaging) (n : Nat) (slist : TaskList)
  /-- the loop that calls `AddTask` -/
  | deal (a : Averaging)
  /-- at the critical section of `AddTask` -/
  | addTask (a : Averaging) (slist : TaskList)
  /-- `AddTask` of what is left -/
  | left (tasks : TaskList)
deriving DecidableEq, Repr

namespace DispatcherPc

def tasks : DispatcherPc → TaskList
  | steal a | stealRunnable a _ _ | deal a | addTask a _ => a.tasks
  | left tasks => tasks
  | _ => []

def slist : DispatcherPc → TaskList
  | stealRunnable _ _ slist | addTask _ slist => slist
  | _ => []

end DispatcherPc

/-- `size` is the size of `processers_`; the tasks allocated are the numbers below
`allocated`.  `creating` are the calls of `Processer::AddTask` from `CreateTask` and `waking`
the calls of `WakeupBySelfIO` that are at their critical section, each with its Processer;
`suspended` are the tasks for whose suspension `WakeupBySelfIO` has not been called.
`fault` says that an assertion has failed, that a null pointer was used or that a queue was
given a task of another queue. -/
structure Scheduler where
  processers_ : Nat → Processer
  size : Nat
  lastActive_ : Nat
  task : TaskPtr → Task
  allocated : Nat
  free_task_map_ : Multimap Int TaskPtr
  creating : List (TaskPtr × Nat)
  suspended : List TaskPtr
  waking : List (TaskPtr × Nat)
  dispatcher : DispatcherPc
  fault : Bool

inductive SchedulerStep
  | newProcessThread
  /-- `CreateTask` up to the critical section of `Processer::AddTask` -/
  | createTask (stack_size : Int)
  /-- that section, for the call `k` -/
  | addTask (k : Nat)
  /-- the next step of `Process` of the Processer `p` -/
  | process (p : Nat)
  /-- the running task of `p` calls `StaticCoYield` -/
  | yield (p : Nat)
  /-- it calls `SuspendBySelfIO`, up to its critical section -/
  | suspendBySelfIo (p : Nat)
  /-- it goes on behind `SuspendBySelfIO`: it is back in its queue before it has switched out,
  as in `CoMutex::lock` -/
  | runOn (p : Nat)
  /-- its function returns -/
  | finish (p : Nat)
  /-- `WakeupBySelfIO` up to its critical section -/
  | wakeupBySelfIo (t : TaskPtr)
  | wakeupPush (k : Nat)
  /-- the next step of `AvgTotalTasks` -/
  | avgTotalTasks
deriving DecidableEq, Repr

namespace Scheduler

def make : Scheduler :=
  { processers_ := fun _ => .make
    size := 1
    lastActive_ := 0
    task := fun _ => { state_ := .runnable, proc_ := none, stack_size_ := 0 }
    allocated := 0
    free_task_map_ := .empty
    creating := []
    suspended := []
    waking := []
    dispatcher := .idle
    fault := false }

def setProcesser (s : Scheduler) (p : Nat) (x : Processer) : Scheduler :=
  { s with processers_ := Function.update s.processers_ p x }

def setTask (s : Scheduler) (t : TaskPtr) (tk : Task) : Scheduler :=
  { s with task := Function.update s.task t tk }

def assert (s : Scheduler) (b : Bool) : Scheduler := { s with fault := s.fault || !b }

section Links

/-- The link fields of a task that is alone in an `SList` are null. -/
def linkedIn (l : TaskList) (t : TaskPtr) : Bool := decide (t ∈ l) && decide (1 < l.length)

def linked (s : Scheduler) (t : TaskPtr) : Bool :=
  ((List.range s.size).any fun p =>
    decide (t ∈ (s.processers_ p).runnableQueue_) || decide (t ∈ (s.processers_ p).newQueue_) ||
      linkedIn (s.processers_ p).pc.elements t) ||
    linkedIn s.dispatcher.tasks t || linkedIn s.dispatcher.slist t

/-- `runnableQueue_` of `p` may be asked for what follows the task, or to erase it. -/
def owns (s : Scheduler) (p : Nat) (t : Option TaskPtr) : Bool :=
  t.all fun t => decide (t ∈ (s.processers_ p).runnableQueue_) || !s.linked t

end Links

section Create

def getFreeTaskList (s : Scheduler) (stack_size : Int) : Option (Scheduler × TaskPtr) :=
  match s.free_task_map_.lowerBound stack_size with
  | some itr => some ({ s with free_task_map_ := s.free_task_map_.erase itr.id }, itr.value)
  | none => none

def newTask (s : Scheduler) (stack_size : Int) : Scheduler × TaskPtr :=
  ({ s with allocated := s.allocated + 1 }.setTask s.allocated
    { state_ := .runnable, proc_ := none, stack_size_ := stack_size }, s.allocated)

/-- The loop of `Scheduler::AddTask` with `n` turns to go after this one: the Processer
and the value of `idx` behind the loop. -/
def nextActive (s : Scheduler) : Nat → Nat → Nat × Nat
  | 0, idx =>
      let idx := idx % s.size
      (idx, if (s.processers_ idx).active_ then idx else idx + 1)
  | n + 1, idx =>
      let idx := idx % s.size
      if (s.processers_ idx).active_ then (idx, idx) else nextActive s n (idx + 1)

/-- `Scheduler::AddTask` up to the call of `Processer::AddTask`. -/
def addTask (s : Scheduler) (tk : TaskPtr) : Scheduler :=
  let choose :=
    let r := s.nextActive (s.size - 1) s.lastActive_
    { s with lastActive_ := r.2 + 1, creating := s.creating ++ [(tk, r.1)] }
  match (s.task tk).proc_ with
  | some p =>
      if (s.processers_ p).active_ then { s with creating := s.creating ++ [(tk, p)] }
      else choose
  | none => choose

def createTask (s : Scheduler) (stack_size : Int) : Scheduler :=
  let r := (s.getFreeTaskList stack_size).getD (s.newTask stack_size)
  r.1.addTask r.2

/-- The critical section of `Processer::AddTask`. -/
def pushNew (s : Scheduler) (p : Nat) (elements : TaskList) : Scheduler :=
  s.setProcesser p
    { s.processers_ p with newQueue_ := (s.processers_ p).newQueue_.pushWithoutLock elements }

end Create

section Process

/-- `Task::Reset` and `free_task_map_.emplace`. -/
def add2FreeTaskList (s : Scheduler) (t : TaskPtr) : Scheduler :=
  { s with free_task_map_ := s.free_task_map_.insert (s.task t).stack_size_ t }.setTask t
    { s.task t with state_ := .runnable, proc_ := none }

def swapIn (s : Scheduler) (p : Nat) (t : TaskPtr) : Scheduler :=
  (s.setTask t { s.task t with state_ := .runnable, proc_ := some p }).setProcesser p
    { s.processers_ p with pc := .exec t }

/-- The critical section of `SuspendBySelfIO`. -/
def suspendErase (s : Scheduler) (p : Nat) (tk : TaskPtr) : Scheduler :=
  let x := s.processers_ p
  let r := x.runnableQueue_.eraseWithoutLock tk
  { (s.assert (x.runningTask_ = some tk && s.owns p (some tk) && r.2)).setProcesser p
    { x with
      nextTask_ := x.runnableQueue_.nextWithoutLock tk
      runnableQueue_ := r.1
      pc := .suspended tk } with suspended := s.suspended ++ [tk] }

def branch (s : Scheduler) (p : Nat) (t : TaskPtr) : Scheduler :=
  let x := s.processers_ p
  match x.pc with
  | .switched =>
      s.setProcesser p { x with
        pc := match (s.task t).state_ with
          | .block => .block
          | .runnable => .runnable
          | .done => .doneNext }
  | .block => s.setProcesser p { x with runningTask_ := x.nextTask_, nextTask_ := none, pc := .loop }
  | .runnable =>
      (s.assert (s.owns p (some t))).setProcesser p
        { x with runningTask_ := x.runnableQueue_.nextWithoutLock t, pc := .loop }
  | .doneNext =>
      (s.assert (s.owns p (some t))).setProcesser p
        { x with nextTask_ := x.runnableQueue_.nextWithoutLock t, pc := .doneErase }
  | .doneErase =>
      (s.assert (s.owns p (some t))).setProcesser p
        { x with runnableQueue_ := (x.runnableQueue_.eraseWithoutLock t).1, pc := .doneAdvance }
  | .doneAdvance =>
      (s.add2FreeTaskList t).setProcesser p
        { x with runningTask_ := x.nextTask_, nextTask_ := none, pc := .loop }
  | _ => s

/-- The next step of `Process`, which is none while a task runs. -/
def process (s : Scheduler) (p : Nat) : Option Scheduler :=
  let x := s.processers_ p
  match x.pc with
  | .front =>
      let t := x.runnableQueue_.front
      some (s.setProcesser p
        { x with runningTask_ := t, pc := if t.isSome then .loop else .addEmpty true })
  | .addEmpty idle =>
      some (s.setProcesser p { x with
        pc := if x.newQueue_.isEmpty then if idle then .waitLoop else .front
          else .addPop idle })
  | .addPop idle =>
      let r := x.newQueue_.popAllWithoutLock
      some (s.setProcesser p { x with newQueue_ := r.1, pc := .addPush idle r.2 })
  | .addPush idle elements =>
      some (s.setProcesser p { x with
        runnableQueue_ := x.runnableQueue_.pushWithoutLock elements
        pc := if idle then .frontAgain else .front })
  | .frontAgain =>
      let t := x.runnableQueue_.front
      some (s.setProcesser p
        { x with runningTask_ := t, pc := if t.isSome then .loop else .waitLoop })
  | .waitLoop => some (s.setProcesser p { x with pc := .front })
  | .loop =>
      match x.runningTask_ with
      | some t => some (s.swapIn p t)
      | none => some (s.setProcesser p { x with pc := .addEmpty false })
  | .exec _ => none
  | .suspending tk => some (s.suspendErase p tk)
  | .suspended _ => some (s.setProcesser p { x with pc := .switched })
  | _ =>
      match x.runningTask_ with
      | some t => some (s.branch p t)
      | none => some (s.assert false)

/-- `SuspendBySelfIO` up to its critical section. -/
def suspendBySelfIo (s : Scheduler) (p : Nat) (tk : TaskPtr) : Scheduler :=
  let x := s.processers_ p
  ((s.assert (x.runningTask_ = some tk && (s.task tk).state_ = .runnable)).setTask tk
    { s.task tk with state_ := .block }).setProcesser p { x with pc := .suspending tk }

/-- `Task::Run` behind the function of the task. -/
def finish (s : Scheduler) (p : Nat) (tk : TaskPtr) : Scheduler :=
  (s.setTask tk { s.task tk with state_ := .done }).setProcesser p
    { s.processers_ p with pc := .switched }

end Process

section Wakeup

/-- `WakeupBySelfIO` up to its critical section. -/
def wakeupBySelfIo (s : Scheduler) (t : TaskPtr) : Scheduler :=
  match (s.task t).proc_ with
  | some p =>
      { s.setTask t { s.task t with state_ := .runnable } with
        suspended := s.suspended.erase t
        waking := s.waking ++ [(t, p)] }
  | none => s.assert false

/-- The critical section of the call `k` of `WakeupBySelfIO`. -/
def wakeupPush (s : Scheduler) (k : Nat) (t : TaskPtr) (p : Nat) : Scheduler :=
  let x := s.processers_ p
  { (s.assert !s.linked t).setProcesser p
    { x with runnableQueue_ := x.runnableQueue_.pushWithoutLock [t] } with
    waking := s.waking.eraseIdx k }

end Wakeup

section AvgTotalTasks

/-- The loop that calls `Steal`, up to the first critical section of the next call. -/
def steal (s : Scheduler) (a : Averaging) : Scheduler :=
  if a.i < s.size then
    let count := a.cacheTaskCounts.getD a.i 0
    if a.avg < count then
      let n := count - a.avg
      let r := (s.processers_ a.i).stealNew n
      { s.setProcesser a.i r.1 with
        dispatcher :=
          if n > 0 ∧ r.2.length ≥ n then
            .steal { a with i := a.i + 1, tasks := a.tasks ++ r.2 }
          else .stealRunnable a n r.2 }
    else { s with dispatcher := .steal { a with i := a.i + 1 } }
  else { s with dispatcher := .deal { a with i := 0 } }

def stealRunnable (s : Scheduler) (a : Averaging) (n : Nat) (slist : TaskList) : Scheduler :=
  let x := s.processers_ a.i
  let r := x.stealRunnable n slist.length
  { (s.assert (s.owns a.i x.runningTask_ && s.owns a.i x.nextTask_)).setProcesser a.i r.1 with
    dispatcher := .steal { a with i := a.i + 1, tasks := a.tasks ++ (r.2 ++ slist) } }

def deal (s : Scheduler) (a : Averaging) : Scheduler :=
  if a.i < s.size then
    let count := a.cacheTaskCounts.getD a.i 0
    if a.avg > count then
      let r := a.tasks.cut (a.avg - count)
      { s with
        dispatcher :=
          if r.1.isEmpty then .left r.2 else .addTask { a with tasks := r.2 } r.1 }
    else { s with dispatcher := .deal { a with i := a.i + 1 } }
  else { s with dispatcher := .left a.tasks }

def avgTotalTasks (s : Scheduler) : Scheduler :=
  match s.dispatcher with
  | .idle => if s.size < 2 then s else { s with dispatcher := .sizeRunnable [] }
  | .sizeRunnable cacheTaskCounts =>
      let i := cacheTaskCounts.length
      if i < s.size then
        { s with
          dispatcher := .sizeNew cacheTaskCounts (s.processers_ i).runnableQueue_.length }
      else
        let avg := cacheTaskCounts.sum / s.size
        { s with
          dispatcher :=
            if avg = 0 then .idle
            else .steal { cacheTaskCounts := cacheTaskCounts, avg := avg, i := 0, tasks := [] } }
  | .sizeNew cacheTaskCounts size =>
      let i := cacheTaskCounts.length
      { s with
        dispatcher :=
          .sizeRunnable (cacheTaskCounts ++ [size + (s.processers_ i).newQueue_.length]) }
  | .steal a => s.steal a
  | .stealRunnable a n slist => s.stealRunnable a n slist
  | .deal a => s.deal a
  | .addTask a slist =>
      { s.pushNew a.i slist with dispatcher := .deal { a with i := a.i + 1 } }
  | .left tasks => { (if tasks.isEmpty then s else s.pushNew 0 tasks) with dispatcher := .idle }

end AvgTotalTasks

def step (s : Scheduler) : SchedulerStep → Option Scheduler
  | .newProcessThread =>
      -- the thread of `Start`, which calls `AvgTotalTasks` afterwards
      if s.dispatcher = .idle then some { s with size := s.size + 1 } else none
  | .createTask stack_size => some (s.createTask stack_size)
  | .addTask k => match s.creating[k]? with
    | some (tk, p) =>
        some { (s.assert !s.linked tk).pushNew p [tk] with creating := s.creating.eraseIdx k }
    | none => none
  | .process p => if p < s.size then s.process p else none
  | .yield p => match (s.processers_ p).pc with
    | .exec _ => some (s.setProcesser p { s.processers_ p with pc := .switched })
    | _ => none
  | .suspendBySelfIo p => match (s.processers_ p).pc with
    | .exec tk => some (s.suspendBySelfIo p tk)
    | _ => none
  | .runOn p => match (s.processers_ p).pc with
    | .suspended tk =>
        if tk ∉ s.suspended ∧ tk ∉ s.waking.map Prod.fst then
          some (s.setProcesser p { s.processers_ p with pc := .exec tk })
        else none
    | _ => none
  | .finish p => match (s.processers_ p).pc with
    | .exec tk => some (s.finish p tk)
    | _ => none
  | .wakeupBySelfIo t => if t ∈ s.suspended then some (s.wakeupBySelfIo t) else none
  | .wakeupPush k => match s.waking[k]? with
    | some (t, p) => some (s.wakeupPush k t p)
    | none => none
  | .avgTotalTasks => some s.avgTotalTasks

/-! ## What a step can do -/

section Inversion

theorem addTask_eq (s : Scheduler) (tk : TaskPtr) :
    ∃ p n, s.addTask tk = { s with lastActive_ := n, creating := s.creating ++ [(tk, p)] } := by
  unfold Scheduler.addTask
  simp only
  split
  · split
    · exact ⟨_, s.lastActive_, rfl⟩
    · exact ⟨_, _, rfl⟩
  · exact ⟨_, _, rfl⟩

inductive Created (s : Scheduler) (n : Int) : Scheduler → Prop
  | reused {itr : Node Int TaskPtr} (hitr : s.free_task_map_.lowerBound n = some itr) (p m : Nat) :
      Created s n { s with
        free_task_map_ := s.free_task_map_.erase itr.id
        lastActive_ := m
        creating := s.creating ++ [(itr.value, p)] }
  | new (hnone : s.free_task_map_.lowerBound n = none) (p m : Nat) :
      Created s n { (s.newTask n).1 with
        lastActive_ := m
        creating := s.creating ++ [(s.allocated, p)] }

theorem created (s : Scheduler) (n : Int) : s.Created n (s.createTask n) := by
  unfold createTask getFreeTaskList
  cases hitr : s.free_task_map_.lowerBound n with
  | none =>
      obtain ⟨p, m, heq⟩ := addTask_eq (s.newTask n).1 (s.newTask n).2
      simp only [Option.getD_none, heq]
      exact .new hitr p m
  | some itr =>
      obtain ⟨p, m, heq⟩ := addTask_eq
        { s with free_task_map_ := s.free_task_map_.erase itr.id } itr.value
      simp only [Option.getD_some, heq]
      exact .reused hitr p m

inductive Processed (s : Scheduler) (p : Nat) : Scheduler → Prop
  | front (hpc : (s.processers_ p).pc = .front) :
      Processed s p (s.setProcesser p { s.processers_ p with
        runningTask_ := (s.processers_ p).runnableQueue_.front
        pc := if (s.processers_ p).runnableQueue_.front.isSome then .loop else .addEmpty true })
  | addEmpty {idle : Bool} (hpc : (s.processers_ p).pc = .addEmpty idle) :
      Processed s p (s.setProcesser p { s.processers_ p with
        pc := if (s.processers_ p).newQueue_.isEmpty then if idle then .waitLoop else .front
          else .addPop idle })
  | addPop {idle : Bool} (hpc : (s.processers_ p).pc = .addPop idle) :
      Processed s p (s.setProcesser p { s.processers_ p with
        newQueue_ := (s.processers_ p).newQueue_.popAllWithoutLock.1
        pc := .addPush idle (s.processers_ p).newQueue_.popAllWithoutLock.2 })
  | addPush {idle : Bool} {elements : TaskList}
      (hpc : (s.processers_ p).pc = .addPush idle elements) :
      Processed s p (s.setProcesser p { s.processers_ p with
        runnableQueue_ := (s.processers_ p).runnableQueue_.pushWithoutLock elements
        pc := if idle then .frontAgain else .front })
  | frontAgain (hpc : (s.processers_ p).pc = .frontAgain) :
      Processed s p (s.setProcesser p { s.processers_ p with
        runningTask_ := (s.processers_ p).runnableQueue_.front
        pc := if (s.processers_ p).runnableQueue_.front.isSome then .loop else .waitLoop })
  | waitLoop (hpc : (s.processers_ p).pc = .waitLoop) :
      Processed s p (s.setProcesser p { s.processers_ p with pc := .front })
  | swapIn {tk : TaskPtr} (hpc : (s.processers_ p).pc = .loop)
      (hrun : (s.processers_ p).runningTask_ = some tk) : Processed s p (s.swapIn p tk)
  | loopEnd (hpc : (s.processers_ p).pc = .loop) (hrun : (s.processers_ p).runningTask_ = none) :
      Processed s p (s.setProcesser p { s.processers_ p with pc := .addEmpty false })
  | suspendErase {tk : TaskPtr} (hpc : (s.processers_ p).pc = .suspending tk) :
      Processed s p (s.suspendErase p tk)
  | suspended {tk : TaskPtr} (hpc : (s.processers_ p).pc = .suspended tk) :
      Processed s p (s.setProcesser p { s.processers_ p with pc := .switched })
  | branch {tk : TaskPtr} (hpc : (s.processers_ p).pc.SwappedOut)
      (hrun : (s.processers_ p).runningTask_ = some tk) : Processed s p (s.branch p tk)
  | unpicked (hpc : (s.processers_ p).pc.SwappedOut)
      (hrun : (s.processers_ p).runningTask_ = none) : Processed s p (s.assert false)

theorem processed {s t : Scheduler} {p : Nat} (hs : s.process p = some t) : s.Processed p t := by
  unfold process at hs
  simp only at hs
  cases hpc : (s.processers_ p).pc with
  | loop =>
      rw [hpc] at hs
      simp only at hs
      split at hs <;> cases hs
      · exact .swapIn hpc ‹_›
      · exact .loopEnd hpc ‹_›
  | switched | block | runnable | doneNext | doneErase | doneAdvance =>
      have hout : (s.processers_ p).pc.SwappedOut := by
        rw [hpc]
        trivial
      rw [hpc] at hs
      simp only at hs
      split at hs <;> cases hs
      · exact .branch hout ‹_›
      · exact .unpicked hout ‹_›
  | exec tk =>
      rw [hpc] at hs
      cases hs
  | front | addEmpty idle | addPop idle | addPush idle elements | frontAgain | waitLoop
  | suspending tk | suspended tk =>
      rw [hpc] at hs
      cases hs
      constructor
      exact hpc

inductive Stepped (s : Scheduler) : SchedulerStep → Scheduler → Prop
  | newProcessThread (hidle : s.dispatcher = .idle) :
      Stepped s .newProcessThread { s with size := s.size + 1 }
  | createTask (n : Int) : Stepped s (.createTask n) (s.createTask n)
  | addTask {k : Nat} {tk : TaskPtr} {p : Nat} (hk : s.creating[k]? = some (tk, p)) :
      Stepped s (.addTask k)
        { (s.assert !s.linked tk).pushNew p [tk] with creating := s.creating.eraseIdx k }
  | process {p : Nat} {t : Scheduler} (hp : p < s.size) (hs : s.process p = some t) :
      Stepped s (.process p) t
  | yield {p : Nat} {tk : TaskPtr} (hpc : (s.processers_ p).pc = .exec tk) :
      Stepped s (.yield p) (s.setProcesser p { s.processers_ p with pc := .switched })
  | suspendBySelfIo {p : Nat} {tk : TaskPtr} (hpc : (s.processers_ p).pc = .exec tk) :
      Stepped s (.suspendBySelfIo p) (s.suspendBySelfIo p tk)
  | runOn {p : Nat} {tk : TaskPtr} (hpc : (s.processers_ p).pc = .suspended tk)
      (hback : tk ∉ s.suspended ∧ tk ∉ s.waking.map Prod.fst) :
      Stepped s (.runOn p) (s.setProcesser p { s.processers_ p with pc := .exec tk })
  | finish {p : Nat} {tk : TaskPtr} (hpc : (s.processers_ p).pc = .exec tk) :
      Stepped s (.finish p) (s.finish p tk)
  | wakeupBySelfIo {tk : TaskPtr} (hmem : tk ∈ s.suspended) :
      Stepped s (.wakeupBySelfIo tk) (s.wakeupBySelfIo tk)
  | wakeupPush {k : Nat} {tk : TaskPtr} {p : Nat} (hk : s.waking[k]? = some (tk, p)) :
      Stepped s (.wakeupPush k) (s.wakeupPush k tk p)
  | avgTotalTasks : Stepped s .avgTotalTasks s.avgTotalTasks

theorem stepped {s t : Scheduler} {e : SchedulerStep} (hs : s.step e = some t) :
    s.Stepped e t := by
  unfold step at hs
  split at hs
  case h_1 =>
    obtain ⟨hidle, hs⟩ := Option.ite_none_right_eq_some.mp hs
    cases hs
    exact .newProcessThread hidle
  case h_4 p =>
    obtain ⟨hp, hs⟩ := Option.ite_none_right_eq_some.mp hs
    exact .process hp hs
  case h_7 p =>
    split at hs
    · obtain ⟨hback, hs⟩ := Option.ite_none_right_eq_some.mp hs
      cases hs
      exact .runOn ‹_› hback
    · cases hs
  case h_9 tk =>
    obtain ⟨hmem, hs⟩ := Option.ite_none_right_eq_some.mp hs
    cases hs
    exact .wakeupBySelfIo hmem
  case h_2 n | h_11 =>
    cases hs
    constructor
  all_goals
    split at hs <;> cases hs
    rename_i h
    first
      | exact .addTask h
      | exact .yield h
      | exact .suspendBySelfIo h
      | exact .finish h
      | exact .wakeupPush h

end Inversion

end Scheduler

end CppGo.Scheduling
