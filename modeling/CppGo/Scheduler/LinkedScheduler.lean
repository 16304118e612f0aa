import CppGo.Scheduler.Scheduler
import CppGo.Scheduler.StealLinks

/-!
# The scheduler on linked queues

The scheduler with its queues as they are: the hooks of the tasks are linked in a heap, and a
step calls the operations of `TSQueue` and `SList`, follows the pointers that they return and
branches on the counts.
-/

namespace CppGo.Scheduling

open CppGo.Lib CppGo.Lib.Procedure CppGo.Common

/-- The local variables that are an `SList`: the temporary one of `AddNewTasks`, `tasks` of
`AvgTotalTasks`, and `slist` of `Steal`, later `in` of `AvgTotalTasks`. -/
inductive LocalList
  | elements (p : Nat)
  | tasks
  | slist
deriving DecidableEq, Repr

/-- `control` is what is in no queue: its own queues and lists stay empty.  `lists` are the
numbers of the `SList`s that exist. -/
structure LinkedScheduler where
  control : Scheduler
  lists : LocalList → Option Nat
  heap : Heap

namespace LinkedScheduler

def runnableQueue_ (p : Nat) : Nat := 2 * p

def newQueue_ (p : Nat) : Nat := 2 * p + 1

section Operations

def pointerOf {σ : Type} : Result → Procedure σ (Option TaskPtr)
  | .pointer none => pure none
  | .pointer (some (.elem t)) => pure (some t)
  | _ => stuck

def countOf {σ : Type} : Result → Procedure σ Nat
  | .count n => pure n
  | _ => stuck

def operation (op : Operation) : Procedure Heap Unit := do
  let _ ← call Heap.step op
  pure ()

def front (q : Nat) : Procedure Heap (Option TaskPtr) := do
  let r ← call Heap.step (.front q)
  pointerOf r

def next (q : Nat) (t : TaskPtr) : Procedure Heap (Option TaskPtr) := do
  let r ← call Heap.step (.next q t)
  pointerOf r

def size (q : Nat) : Procedure Heap Nat := do
  let r ← call Heap.step (.size q)
  countOf r

def makeList (op : Operation) : Procedure Heap Nat := QueueObject.onHeap.pop op

def taskNext (t : TaskPtr) : Procedure Heap (Option TaskPtr) := do
  let n ← read fun h => some (h.links.next (.elem t))
  pointerOf (.pointer n)

def listSize (j : Nat) : Procedure Heap Nat := read (QueueObject.onHeap.size · j)

def listEmpty (j : Nat) : Procedure Heap Bool := read fun h => h.slists[j]?.map SList.empty

def assert (b : Bool) : Procedure Heap Unit := fun h => some ((), h.assert b)

/-- `~SList` -/
def destroy (j : Nat) : Procedure Heap Unit := do
  let n ← listSize j
  assert (n = 0)

end Operations

section Threads

def heapDo {α : Type} (c : Procedure Heap α) : Procedure LinkedScheduler α :=
  fun s => (c s.heap).map fun r => (r.1, { s with heap := r.2 })

def setControl (c : Scheduler) : Procedure LinkedScheduler Unit :=
  fun s => some ((), { s with control := c })

def setProcesser (p : Nat) (x : Processer) : Procedure LinkedScheduler Unit :=
  fun s => some ((), { s with control := s.control.setProcesser p x })

def setDispatcher (d : DispatcherPc) : Procedure LinkedScheduler Unit :=
  fun s => some ((), { s with control := { s.control with dispatcher := d } })

def getList (k : LocalList) : Procedure LinkedScheduler Nat := read (·.lists k)

def setList (k : LocalList) (j : Option Nat) : Procedure LinkedScheduler Unit :=
  fun s => some ((), { s with lists := Function.update s.lists k j })

def enter (k : LocalList) (op : Operation) : Procedure LinkedScheduler Unit := do
  let j ← heapDo (makeList op)
  setList k (some j)

def leave (k : LocalList) : Procedure LinkedScheduler Unit := do
  let j ← getList k
  heapDo (destroy j)
  setList k none

/-- `pushWithoutLock(SList<T>&)` of a local list -/
def pushList (q : Nat) (k : LocalList) : Procedure LinkedScheduler Unit := do
  let j ← getList k
  heapDo (operation (.pushAll q j))

/-- `tasks.append(std::move(tmp))` -/
def appendTmp (tmp : Nat) : Procedure LinkedScheduler Unit := do
  let tasks ← getList .tasks
  heapDo (operation (.append tasks tmp))

def plain (c : Option Scheduler) : Procedure LinkedScheduler Unit :=
  fun s => c.map fun c => ((), { s with control := c })

/-- `NewProcessThread`; the constructor of the Processer makes its queues. -/
def newProcessThread (c : Scheduler) : Procedure LinkedScheduler Unit := do
  heapDo (operation .newQueue)
  heapDo (operation .newQueue)
  plain (c.step .newProcessThread)

def process (c : Scheduler) (p : Nat) : Procedure LinkedScheduler Unit :=
  let x := c.processers_ p
  match x.pc with
  | .front => do
      let t ← heapDo (front (runnableQueue_ p))
      setProcesser p { x with runningTask_ := t, pc := if t.isSome then .loop else .addEmpty true }
  | .addEmpty idle => do
      let count ← heapDo (size (newQueue_ p))
      setProcesser p { x with
        pc := if count = 0 then if idle then .waitLoop else .front else .addPop idle }
  | .addPop idle => do
      enter (.elements p) (.popAll (newQueue_ p))
      setProcesser p { x with pc := .addPush idle [] }
  | .addPush idle _ => do
      pushList (runnableQueue_ p) (.elements p)
      leave (.elements p)
      setProcesser p { x with pc := if idle then .frontAgain else .front }
  | .frontAgain => do
      let t ← heapDo (front (runnableQueue_ p))
      setProcesser p { x with runningTask_ := t, pc := if t.isSome then .loop else .waitLoop }
  | .suspending tk => do
      let nextTask ← heapDo (next (runnableQueue_ p) tk)
      let ret ← heapDo (QueueObject.onHeap.eraseTask (runnableQueue_ p) (some tk))
      setControl { (c.assert (x.runningTask_ = some tk && ret)).setProcesser p
        { x with nextTask_ := nextTask, pc := .suspended tk } with
        suspended := c.suspended ++ [tk] }
  | .runnable => do
      let t ← read fun _ => x.runningTask_
      let n ← heapDo (taskNext t)
      setProcesser p { x with runningTask_ := n, pc := .loop }
  | .doneNext => do
      let t ← read fun _ => x.runningTask_
      let n ← heapDo (next (runnableQueue_ p) t)
      setProcesser p { x with nextTask_ := n, pc := .doneErase }
  | .doneErase => do
      let t ← read fun _ => x.runningTask_
      let _ ← heapDo (QueueObject.onHeap.eraseTask (runnableQueue_ p) (some t))
      setProcesser p { x with pc := .doneAdvance }
  | _ => plain (c.process p)

/-- The loop of `AvgTotalTasks` that calls `Steal`, up to the first critical section of the next
call, where `newQueue_` may have enough tasks. -/
def steal (c : Scheduler) (a : Averaging) : Procedure LinkedScheduler Unit :=
  if a.i < c.size then
    let count := a.cacheTaskCounts.getD a.i 0
    if a.avg < count then do
      let n := count - a.avg
      enter .slist (if n > 0 then .popBack (newQueue_ a.i) (n % 2 ^ 32) else .popAll (newQueue_ a.i))
      let slist ← getList .slist
      let size ← heapDo (listSize slist)
      if n > 0 ∧ size ≥ n then do
        appendTmp slist
        leave .slist
        setDispatcher (.steal { a with i := a.i + 1 })
      else setDispatcher (.stealRunnable a n [])
    else setDispatcher (.steal { a with i := a.i + 1 })
  else setDispatcher (.deal { a with i := 0 })

def stealRunnable (c : Scheduler) (a : Averaging) (n : Nat) : Procedure LinkedScheduler Unit := do
  let x := c.processers_ a.i
  let links : ProcesserLinks :=
    { runnableQueue_ := runnableQueue_ a.i
      newQueue_ := newQueue_ a.i
      runningTask_ := x.runningTask_
      nextTask_ := x.nextTask_ }
  let slist ← getList .slist
  let size ← heapDo (listSize slist)
  let popTasks := if n > 0 then .popBack (runnableQueue_ a.i) ((n - size) % 2 ^ 32)
    else .popAll (runnableQueue_ a.i)
  let slist2 ← heapDo (QueueObject.onHeap.stealRunnable links popTasks slist)
  appendTmp slist2
  heapDo (destroy slist2)
  leave .slist
  setDispatcher (.steal { a with i := a.i + 1 })

def deal (c : Scheduler) (a : Averaging) : Procedure LinkedScheduler Unit :=
  if a.i < c.size then
    let count := a.cacheTaskCounts.getD a.i 0
    if a.avg > count then do
      let tasks ← getList .tasks
      enter .slist (.cut tasks (a.avg - count))
      let slist ← getList .slist
      let empty ← heapDo (listEmpty slist)
      if empty then do
        leave .slist
        setDispatcher (.left [])
      else setDispatcher (.addTask a [])
    else setDispatcher (.deal { a with i := a.i + 1 })
  else setDispatcher (.left [])

def avgTotalTasks (c : Scheduler) : Procedure LinkedScheduler Unit :=
  match c.dispatcher with
  | .idle => if c.size < 2 then pure () else setDispatcher (.sizeRunnable [])
  | .sizeRunnable cacheTaskCounts =>
      let i := cacheTaskCounts.length
      if i < c.size then do
        let count ← heapDo (size (runnableQueue_ i))
        setDispatcher (.sizeNew cacheTaskCounts count)
      else
        let avg := cacheTaskCounts.sum / c.size
        if avg = 0 then setDispatcher .idle
        else do
          enter .tasks .newSList
          setDispatcher
            (.steal { cacheTaskCounts := cacheTaskCounts, avg := avg, i := 0, tasks := [] })
  | .sizeNew cacheTaskCounts count => do
      let i := cacheTaskCounts.length
      let count' ← heapDo (size (newQueue_ i))
      setDispatcher (.sizeRunnable (cacheTaskCounts ++ [count + count']))
  | .steal a => steal c a
  | .stealRunnable a n _ => stealRunnable c a n
  | .deal a => deal c a
  | .addTask a _ => do
      pushList (newQueue_ a.i) .slist
      leave .slist
      setDispatcher (.deal { a with i := a.i + 1 })
  | .left _ => do
      let tasks ← getList .tasks
      let empty ← heapDo (listEmpty tasks)
      if empty then pure () else pushList (newQueue_ 0) .tasks
      leave .tasks
      setDispatcher .idle

def code (c : Scheduler) : SchedulerStep → Procedure LinkedScheduler Unit
  | .newProcessThread => newProcessThread c
  | .addTask k => do
      let call ← read fun _ => c.creating[k]?
      heapDo (operation (.push (newQueue_ call.2) call.1))
      setControl { c with creating := c.creating.eraseIdx k }
  | .process p => if p < c.size then process c p else stuck
  | .wakeupPush k => do
      let call ← read fun _ => c.waking[k]?
      heapDo (operation (.push (runnableQueue_ call.2) call.1))
      setControl { c with waking := c.waking.eraseIdx k }
  | .avgTotalTasks => avgTotalTasks c
  | e => plain (c.step e)

end Threads

def step (s : LinkedScheduler) (e : SchedulerStep) : Option LinkedScheduler :=
  (code s.control e s).map Prod.snd

def make : LinkedScheduler :=
  { control := .make
    lists := fun _ => none
    heap := (Heap.make.newQueue).1.newQueue.1 }

end LinkedScheduler

end CppGo.Scheduling
