import CppGo.Scheduler.TaskQueue

/-!
# A Processer

The fields of a `Processer` that its own thread and the dispatcher work on, where its
thread is in `Process`, and the two critical sections of `Steal`.
-/

namespace CppGo.Scheduling

inductive TaskState
  | runnable
  | block
  | done
deriving DecidableEq, Repr

structure Task where
  state_ : TaskState
  proc_ : Option Nat
  stack_size_ : Int
deriving DecidableEq, Repr

/-- What the thread of a Processer does next in `Process`.  `AddNewTasks` is called in two
places, `idle` when `front` has found no task. -/
inductive ProcessPc
  | front
  /-- `newQueue_.empty()` -/
  | addEmpty (idle : Bool)
  /-- `newQueue_.pop_all()` -/
  | addPop (idle : Bool)
  /-- `runnableQueue_.push(..)` of what `pop_all` has returned -/
  | addPush (idle : Bool) (elements : TaskList)
  /-- `front` behind `AddNewTasks` -/
  | frontAgain
  /-- `WaitLoop` and `WakeupTimers` -/
  | waitLoop
  /-- the head of the inner loop -/
  | loop
  /-- the task runs -/
  | exec (tk : TaskPtr)
  /-- the task is at the critical section of `SuspendBySelfIO` -/
  | suspending (tk : TaskPtr)
  /-- the task has returned from `SuspendBySelfIO` -/
  | suspended (tk : TaskPtr)
  /-- back from `SwapIn` -/
  | switched
  /-- the three branches on `state_`; the last one has three critical sections -/
  | block
  | runnable
  | doneNext
  | doneErase
  | doneAdvance
deriving DecidableEq, Repr

def ProcessPc.elements : ProcessPc → TaskList
  | addPush _ elements => elements
  | _ => []

def ProcessPc.executing : ProcessPc → Option TaskPtr
  | exec tk | suspending tk | suspended tk => some tk
  | _ => none

def ProcessPc.SwappedOut : ProcessPc → Prop
  | switched | block | runnable | doneNext | doneErase | doneAdvance => True
  | _ => False

theorem ProcessPc.SwappedOut.elements {pc : ProcessPc} (h : pc.SwappedOut) : pc.elements = [] := by
  cases pc <;> first | rfl | exact h.elim

structure Processer where
  active_ : Bool
  runningTask_ : Option TaskPtr
  nextTask_ : Option TaskPtr
  runnableQueue_ : TaskQueue
  newQueue_ : TaskQueue
  pc : ProcessPc
deriving DecidableEq, Repr

namespace Processer

def make : Processer :=
  { active_ := true
    runningTask_ := none
    nextTask_ := none
    runnableQueue_ := []
    newQueue_ := []
    pc := .front }

/-- `Steal` up to the first comparison: what it takes from `newQueue_`. -/
def stealNew (p : Processer) (n : Nat) : Processer × TaskList :=
  let r := if n > 0 then p.newQueue_.popBackWithoutLock (n % 2 ^ 32)
    else p.newQueue_.popAllWithoutLock
  ({ p with newQueue_ := r.1 }, r.2)

/-- `eraseWithoutLock` of a task that may be null. -/
def pin (q : TaskQueue) (hook : Option TaskPtr) : TaskQueue × Bool :=
  match hook with
  | some t => q.eraseWithoutLock t
  | none => (q, false)

/-- The critical section of `Steal(n)` on `runnableQueue_`, when `newQueue_` has given
`size` tasks: `runningTask_` and `nextTask_` are taken out and put back at the end. -/
def stealRunnable (p : Processer) (n size : Nat) : Processer × TaskList :=
  let q₁ := pin p.runnableQueue_ p.runningTask_
  let q₂ := pin q₁.1 p.nextTask_
  let q₃ := if n > 0 then q₂.1.popBackWithoutLock ((n - size) % 2 ^ 32)
    else q₂.1.popAllWithoutLock
  let q₄ := if q₁.2 then q₃.1.pushWithoutLock p.runningTask_.toList else q₃.1
  let q₅ := if q₂.2 then q₄.pushWithoutLock p.nextTask_.toList else q₄
  ({ p with runnableQueue_ := q₅ }, q₃.2)

structure Stolen (p : Processer) (r : Processer × TaskList) : Prop where
  perm : p.runnableQueue_.Perm (r.2 ++ r.1.runnableQueue_)
  running : ∀ t, p.runningTask_ = some t → t ∈ p.runnableQueue_ → t ∈ r.1.runnableQueue_
  next : ∀ t, p.nextTask_ = some t → t ∈ p.runnableQueue_ → t ∈ r.1.runnableQueue_
  same : r.1 = { p with runnableQueue_ := r.1.runnableQueue_ }

section Steal

open scoped List

variable {p : Processer} {q : TaskQueue} {hook : Option TaskPtr} {t : TaskPtr}

theorem pin_perm : q ~ (if (pin q hook).2 then hook.toList else []) ++ (pin q hook).1 := by
  cases hook with
  | none => exact .refl q
  | some t =>
      show q ~ (if (q.eraseWithoutLock t).2 then [t] else []) ++ (q.eraseWithoutLock t).1
      by_cases ht : t ∈ q
      · rw [TaskQueue.erase_of_mem ht]
        exact List.perm_cons_erase ht
      · rw [TaskQueue.erase_of_not_mem ht]
        exact .refl q

theorem pin_of_mem (ht : t ∈ q) : (pin q (some t)).2 = true := by
  show (q.eraseWithoutLock t).2 = true
  rw [TaskQueue.erase_of_mem ht]

theorem mem_pin_of_ne (ht : t ∈ q) (hne : hook ≠ some t) : t ∈ (pin q hook).1 := by
  have hmem := (@pin_perm q hook).mem_iff.mp ht
  rw [List.mem_append] at hmem
  apply hmem.resolve_left
  split
  · rw [Option.mem_toList]
    exact hne
  · exact List.not_mem_nil

theorem stealRunnable_spec (p : Processer) (n size : Nat) :
    Stolen p (p.stealRunnable n size) := by
  generalize hq₁ : pin p.runnableQueue_ p.runningTask_ = q₁
  generalize hq₂ : pin q₁.1 p.nextTask_ = q₂
  generalize hq₃ : (if n > 0 then q₂.1.popBackWithoutLock ((n - size) % 2 ^ 32)
    else q₂.1.popAllWithoutLock) = q₃
  generalize hrunning : (if q₁.2 then p.runningTask_.toList else []) = running
  generalize hnext : (if q₂.2 then p.nextTask_.toList else []) = next
  have hpop : q₃.1 ++ q₃.2 = q₂.1 := by
    rw [← hq₃]
    split
    · exact TaskQueue.popBack_append
    · rfl
  have hpin₁ : p.runnableQueue_ ~ running ++ q₁.1 := by
    rw [← hrunning, ← hq₁]
    exact pin_perm
  have hpin₂ : q₁.1 ~ next ++ q₂.1 := by
    rw [← hnext, ← hq₂]
    exact pin_perm
  have hqueue : (p.stealRunnable n size).1.runnableQueue_ = q₃.1 ++ running ++ next := by
    unfold stealRunnable TaskQueue.pushWithoutLock
    simp only [hq₁, hq₂, hq₃]
    rw [← hrunning, ← hnext]
    split <;> split <;> simp
  have hlist : (p.stealRunnable n size).2 = q₃.2 := by
    unfold stealRunnable
    simp only [hq₁, hq₂, hq₃]
  constructor
  · rw [hqueue, hlist]
    calc p.runnableQueue_
        ~ running ++ q₁.1 := hpin₁
      _ ~ running ++ (next ++ q₂.1) := hpin₂.append_left running
      _ ~ q₂.1 ++ (running ++ next) := by
          rw [← List.append_assoc]
          exact List.perm_append_comm
      _ ~ q₃.2 ++ q₃.1 ++ (running ++ next) := by
          rw [← hpop]
          exact List.perm_append_comm.append_right _
      _ ~ q₃.2 ++ (q₃.1 ++ running ++ next) := by simp
  · intro t ht hmem
    have hpinned : q₁.2 = true := by
      rw [← hq₁, ht]
      exact pin_of_mem hmem
    rw [hqueue, ← hrunning, hpinned, ht]
    simp
  · intro t ht hmem
    rw [hqueue]
    by_cases hsame : p.runningTask_ = some t
    · have hpinned : q₁.2 = true := by
        rw [← hq₁, hsame]
        exact pin_of_mem hmem
      rw [← hrunning, hpinned, hsame]
      simp
    · have hpinned : q₂.2 = true := by
        rw [← hq₂, ht, ← hq₁]
        exact pin_of_mem (mem_pin_of_ne hmem hsame)
      rw [← hnext, hpinned, ht]
      simp
  · rfl

theorem stealNew_spec (p : Processer) (n : Nat) :
    p.newQueue_ ~ (p.stealNew n).2 ++ (p.stealNew n).1.newQueue_ ∧
      (p.stealNew n).1 = { p with newQueue_ := (p.stealNew n).1.newQueue_ } := by
  refine ⟨?_, rfl⟩
  unfold stealNew
  simp only
  split
  · calc p.newQueue_
        ~ (p.newQueue_.popBackWithoutLock (n % 2 ^ 32)).1 ++
            (p.newQueue_.popBackWithoutLock (n % 2 ^ 32)).2 := by
          rw [TaskQueue.popBack_append]
      _ ~ _ := List.perm_append_comm
  · show p.newQueue_ ~ p.newQueue_ ++ []
    rw [List.append_nil]

end Steal

end Processer

end CppGo.Scheduling
