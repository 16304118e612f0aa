import Mathlib.Algebra.Ring.Nat
import Mathlib.Data.List.Basic
import Mathlib.Data.List.Perm.Basic
import Mathlib.Tactic.Common

/-!
# The queues of tasks

A `TSQueue<Task>` or an `SList<Task>` is the list of its tasks from `head_` on.  A task is
its address.  The link fields are in the task, so an operation that takes a task works on
the queue that holds it: the functions here say what it does when this is its own queue or
no queue, and their callers keep to that.
-/

namespace CppGo.Scheduling

abbrev TaskPtr := Nat

abbrev TaskQueue := List TaskPtr

abbrev TaskList := List TaskPtr

namespace TaskQueue

def front (q : TaskQueue) : Option TaskPtr := q.head?

/-- `(T*)ptr->next`, null for a task that is in no queue -/
def nextWithoutLock : TaskQueue → TaskPtr → Option TaskPtr
  | [], _ => none
  | t :: q, ptr => if t = ptr then q.head? else nextWithoutLock q ptr

/-- The result is false for a task that is in no queue. -/
def eraseWithoutLock (q : TaskQueue) (hook : TaskPtr) : TaskQueue × Bool :=
  if hook ∈ q then (q.erase hook, true) else (q, false)

def pushWithoutLock (q : TaskQueue) (elements : TaskList) : TaskQueue := q ++ elements

/-- The loop counts from one, so a queue that is not empty gives a task also for `n = 0`. -/
def popBackWithoutLock (q : TaskQueue) (n : Nat) : TaskQueue × TaskList :=
  q.splitAt (q.length - max 1 n)

def popAllWithoutLock (q : TaskQueue) : TaskQueue × TaskList := ([], q)

variable {q : TaskQueue} {t ptr : TaskPtr} {n : Nat}

theorem mem_of_front (h : q.front = some t) : t ∈ q :=
  List.mem_of_mem_head? h

theorem mem_of_next (h : q.nextWithoutLock ptr = some t) : t ∈ q := by
  induction q with
  | nil => cases h
  | cons a q ih =>
      unfold nextWithoutLock at h
      apply List.mem_cons_of_mem
      split at h
      · exact mem_of_front h
      · exact ih h

theorem next_ne (hq : q.Nodup) (h : q.nextWithoutLock ptr = some t) : t ≠ ptr := by
  induction q with
  | nil => cases h
  | cons a q ih =>
      rw [List.nodup_cons] at hq
      unfold nextWithoutLock at h
      split at h
      · rename_i ha
        subst ha
        intro ht
        subst ht
        exact hq.1 (mem_of_front h)
      · exact ih hq.2 h

theorem erase_of_mem (h : t ∈ q) : q.eraseWithoutLock t = (q.erase t, true) :=
  if_pos h

theorem erase_of_not_mem (h : t ∉ q) : q.eraseWithoutLock t = (q, false) :=
  if_neg h

theorem popBack_append : (q.popBackWithoutLock n).1 ++ (q.popBackWithoutLock n).2 = q := by
  rw [popBackWithoutLock, List.splitAt_eq]
  exact List.take_append_drop _ _

end TaskQueue

/-- `SList::cut`: the first `n` tasks and what stays. -/
def TaskList.cut (l : TaskList) (n : Nat) : TaskList × TaskList := l.splitAt n

theorem TaskList.cut_append (l : TaskList) (n : Nat) : (l.cut n).1 ++ (l.cut n).2 = l := by
  rw [cut, List.splitAt_eq]
  exact List.take_append_drop _ _

end CppGo.Scheduling
