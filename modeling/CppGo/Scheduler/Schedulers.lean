import CppGo.Scheduler.Scheduler

/-!
# The default scheduler and the others

Any number of schedulers that `Scheduler::Create` has made, beside the one of `getInstance`,
which is number 0.  A scheduler has its own numbers for the tasks it deals with, and `object`
says which `Task` object a number is: the scheduler that has allocated it and its number
there.
-/

namespace CppGo.Scheduling

open CppGo.Lib

structure Schedulers where
  scheduler : Nat → Scheduler
  object : Nat → TaskPtr → Nat × TaskPtr

/-- `Add2FreeTaskList` of a task of another scheduler, which gets the next number. -/
def Scheduler.adopt (s : Scheduler) (tk : Task) : Scheduler :=
  { s with
    allocated := s.allocated + 1
    free_task_map_ := s.free_task_map_.insert tk.stack_size_ s.allocated }.setTask s.allocated
      { tk with state_ := .runnable, proc_ := none }

/-- The last section of the done branch, behind `Add2FreeTaskList`. -/
def Scheduler.doneAdvance (s : Scheduler) (p : Nat) : Scheduler :=
  let x := s.processers_ p
  s.setProcesser p { x with runningTask_ := x.nextTask_, nextTask_ := none, pc := .loop }

namespace Schedulers

def make : Schedulers := { scheduler := fun _ => .make, object := fun i tk => (i, tk) }

/-- The Processer and the task of the done branch, if this step of the scheduler `i` is its
last section and the scheduler is not the one of `getInstance`. -/
def endsAbroad (S : Schedulers) (i : Nat) : SchedulerStep → Option (Nat × TaskPtr)
  | .process p =>
      let x := (S.scheduler i).processers_ p
      if i ≠ 0 ∧ p < (S.scheduler i).size ∧ x.pc = .doneAdvance then
        x.runningTask_.map fun tk => (p, tk)
      else none
  | _ => none

/-- `Scheduler::getInstance().Add2FreeTaskList(runningTask_)` on the Processer `p` of the
scheduler `i`. -/
def cacheInDefault (S : Schedulers) (i p : Nat) (tk : TaskPtr) : Schedulers :=
  let default := S.scheduler 0
  { scheduler := Function.update
      (Function.update S.scheduler 0 (default.adopt ((S.scheduler i).task tk))) i
      ((S.scheduler i).doneAdvance p)
    object := Function.update S.object 0
      (Function.update (S.object 0) default.allocated (S.object i tk)) }

def step (S : Schedulers) (a : Nat × SchedulerStep) : Option Schedulers :=
  match S.endsAbroad a.1 a.2 with
  | some (p, tk) => some (S.cacheInDefault a.1 p tk)
  | none => ((S.scheduler a.1).step a.2).map fun s =>
      { S with scheduler := Function.update S.scheduler a.1 s }

end Schedulers

end CppGo.Scheduling
