import CppGo.Scheduler.Scheduler

/-!
# The functions of the tasks

What a `Task` keeps of the function it is created with, and what `Run` calls.  The fields are
written when a task is created, when it ends and when it goes to the cache, so they go along
with the steps of the scheduler.  A function object without a function is none, and so is a
null pointer.
-/

namespace CppGo.Scheduling

open CppGo.Lib

variable {F F1 P : Type*}

/-- The union of a task, by the member last written. -/
inductive Callable (F F1 : Type*)
  | fn_ (fn : Option F)
  | fn1_ (fn1 : Option F1)
deriving DecidableEq

/-- What a call of `CreateTask` is given, for each of its overloads. -/
inductive Request (F F1 P : Type*)
  | taskF (fn : Option F)
  | taskF1 (fn1 : Option F1) (user_param : Option P)
deriving DecidableEq

inductive Entry
  /-- at the start of `StaticRun` -/
  | staticRun
  | inside
deriving DecidableEq, Repr

structure Body (F F1 P : Type*) where
  callable : Callable F F1
  user_param_ : Option P
  ctx_ : Entry
deriving DecidableEq

inductive Call (P : Type*)
  | fn_
  | fn1_ (user_param : Option P)
deriving DecidableEq

namespace Body

def make : Request F F1 P → Body F F1 P
  | .taskF fn => { callable := .fn_ fn, user_param_ := none, ctx_ := .staticRun }
  | .taskF1 fn1 user_param =>
      { callable := .fn1_ fn1, user_param_ := user_param, ctx_ := .staticRun }

def reInit (b : Body F F1 P) : Request F F1 P → Body F F1 P
  | .taskF fn => { b with callable := .fn_ fn, ctx_ := .staticRun }
  | .taskF1 fn1 user_param =>
      { b with callable := .fn1_ fn1, user_param_ := user_param, ctx_ := .staticRun }

def reset (b : Body F F1 P) : Body F F1 P := { b with user_param_ := none }

def run (b : Body F F1 P) : Call P :=
  match b.user_param_ with
  | none => .fn_
  | some user_param => .fn1_ (some user_param)

/-- `fn_ = TaskF()`, which `Run` does behind the call and where it catches an exception. -/
def ended (b : Body F F1 P) : Body F F1 P := { b with callable := .fn_ none }

end Body

/-- A call that `Run` has made: for which call of `CreateTask`, by its number, what was in the
union then, and what it has called. -/
structure Invocation (F F1 P : Type*) where
  request : Nat
  callable : Callable F F1
  call : Call P
deriving DecidableEq

namespace Invocation

/-- `Run` has called the member last written. -/
def Active (i : Invocation F F1 P) : Prop :=
  match i.callable, i.call with
  | .fn_ _, .fn_ | .fn1_ _, .fn1_ _ => True
  | _, _ => False

/-- `Run` has called what was given to `CreateTask`. -/
def Exact (i : Invocation F F1 P) : Request F F1 P → Prop
  | .taskF fn => i.callable = .fn_ fn ∧ i.call = .fn_
  | .taskF1 fn1 user_param => i.callable = .fn1_ fn1 ∧ i.call = .fn1_ user_param

end Invocation

/-- What happens to the fields of a task in a step of the scheduler. -/
inductive Turn
  /-- `SwapIn` -/
  | enter (tk : TaskPtr)
  /-- the function returns, or throws and `Run` catches it -/
  | ended (tk : TaskPtr)
  /-- `Add2FreeTaskList` -/
  | reset (tk : TaskPtr)
deriving DecidableEq, Repr

def ProcessPc.turn (tk : TaskPtr) : ProcessPc → Option Turn
  | loop => some (.enter tk)
  | doneAdvance => some (.reset tk)
  | _ => none

def Scheduler.turn (s : Scheduler) : SchedulerStep → Option Turn
  | .finish p => match (s.processers_ p).pc with
    | .exec tk => some (.ended tk)
    | _ => none
  | .process p => (s.processers_ p).runningTask_.bind fun tk => (s.processers_ p).pc.turn tk
  | _ => none

/-- A scheduler and the functions of its tasks.  `created` is the number of the last call of
`CreateTask` that has given out the task, `requests` are all these calls, and `runs` what `Run`
has called. -/
structure TaskBodies (F F1 P : Type*) where
  scheduler : Scheduler
  body : TaskPtr → Body F F1 P
  created : TaskPtr → Nat
  requests : List (Request F F1 P)
  runs : List (Invocation F F1 P)

inductive BodyStep (F F1 P : Type*)
  | createTask (r : Request F F1 P) (stack_size : Int)
  /-- any other step of the scheduler -/
  | scheduler (e : SchedulerStep)

namespace TaskBodies

def make : TaskBodies F F1 P :=
  { scheduler := .make
    body := fun _ => { callable := .fn_ none, user_param_ := none, ctx_ := .inside }
    created := fun _ => 0
    requests := []
    runs := [] }

def setBody (m : TaskBodies F F1 P) (tk : TaskPtr) (b : Body F F1 P) : TaskBodies F F1 P :=
  { m with body := Function.update m.body tk b }

def createTask (m : TaskBodies F F1 P) (r : Request F F1 P) (stack_size : Int) :
    TaskBodies F F1 P :=
  let found := m.scheduler.getFreeTaskList stack_size
  let tk := (found.getD (m.scheduler.newTask stack_size)).2
  { m.setBody tk (if found.isSome then (m.body tk).reInit r else .make r) with
    scheduler := m.scheduler.createTask stack_size
    created := Function.update m.created tk m.requests.length
    requests := m.requests ++ [r] }

/-- `SwapIn`, which calls the function if the context is at its start. -/
def enter (m : TaskBodies F F1 P) (tk : TaskPtr) : TaskBodies F F1 P :=
  match (m.body tk).ctx_ with
  | .staticRun =>
      { m.setBody tk { m.body tk with ctx_ := .inside } with
        runs := m.runs ++ [{
          request := m.created tk
          callable := (m.body tk).callable
          call := (m.body tk).run }] }
  | .inside => m

def apply (m : TaskBodies F F1 P) : Option Turn → TaskBodies F F1 P
  | none => m
  | some (.enter tk) => m.enter tk
  | some (.ended tk) => m.setBody tk (m.body tk).ended
  | some (.reset tk) => m.setBody tk (m.body tk).reset

def step (m : TaskBodies F F1 P) : BodyStep F F1 P → Option (TaskBodies F F1 P)
  | .createTask r stack_size => some (m.createTask r stack_size)
  | .scheduler (.createTask _) => none
  | .scheduler e => (m.scheduler.step e).map fun s =>
      { m.apply (m.scheduler.turn e) with scheduler := s }

end TaskBodies

end CppGo.Scheduling
