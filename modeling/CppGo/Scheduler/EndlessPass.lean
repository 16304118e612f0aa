import CppGo.Scheduler.Turns

/-!
# A pass that does not end

Two tasks that are woken up after they have switched out keep one pass going for as long as they
like.  The tasks in front of them in the queue, the new ones and the timers wait for its end.
-/

namespace CppGo.Scheduling

open CppGo.Lib

/-- The tasks `a` and `b` have `n` turns, first `a`: each is swapped in and then woken up. -/
def alternation (a b : TaskPtr) : Nat → List QueueEvent
  | 0 => []
  | n + 1 => .swapIn a :: .wakeup a :: alternation b a n

namespace Scheduler

/-- The Processer 0 is at `pc` in a pass in which the tasks `a` and `b` are woken up, and `a` has
the turn. -/
structure Alternates (s : Scheduler) (a : TaskPtr) (pc : ProcessPc) (running next : Option TaskPtr)
    (queue : TaskQueue) (suspended : TaskList) (waking : List (TaskPtr × Nat)) : Prop where
  size : 0 < s.size
  pc : (s.processers_ 0).pc = pc
  running : (s.processers_ 0).runningTask_ = running
  next : (s.processers_ 0).nextTask_ = next
  queue : (s.processers_ 0).runnableQueue_ = queue
  new : (s.processers_ 0).newQueue_ = [3]
  suspended : s.suspended = suspended
  waking : s.waking = waking

variable {s t : Scheduler} {a b : TaskPtr} {n : Nat}

def InPass (w : Scheduler × List QueueEvent) (e : SchedulerStep) : Prop :=
  ¬ (w.1.processers_ 0).pc.Between ∧ w.1.Unstolen 0 e

section Steps

variable {q : TaskQueue} {o : Option TaskPtr}

theorem alternates_swapIn (h : Alternates s a .loop (some a) o q [] []) :
    ∃ t, s.step (.process 0) = some t ∧ s.turns 0 (.process 0) = [.swapIn a] ∧
      Alternates t a (.exec a) (some a) o q [] [] ∧ (t.task a).proc_ = some 0 := by
  refine ⟨s.swapIn 0 a, ?_, ?_, ?_, ?_⟩
  · simp [step, process, h.size, h.pc, h.running]
  · simp [turns, swapsIn, wakes, h.pc, h.running]
  · constructor <;> simp [swapIn, setProcesser, setTask, h.size, h.running, h.next, h.queue, h.new,
      h.suspended, h.waking]
  · simp [swapIn, setProcesser, setTask]

theorem alternates_suspend (h : Alternates s a (.exec a) (some a) o q [] [])
    (hhome : (s.task a).proc_ = some 0) :
    ∃ t, s.step (.suspendBySelfIo 0) = some t ∧ s.turns 0 (.suspendBySelfIo 0) = [] ∧
      Alternates t a (.suspending a) (some a) o q [] [] ∧ (t.task a).proc_ = some 0 ∧
      (t.task a).state_ = .block := by
  refine ⟨s.suspendBySelfIo 0 a, ?_, rfl, ?_, ?_, ?_⟩
  · simp [step, h.pc]
  · constructor <;> simp [suspendBySelfIo, setProcesser, setTask, assert, h.size, h.running, h.next,
      h.queue, h.new, h.suspended, h.waking]
  · simp [suspendBySelfIo, setProcesser, setTask, assert, hhome]
  · simp [suspendBySelfIo, setProcesser, setTask, assert]

theorem alternates_erase (ha : a ≠ 0) (h : Alternates s a (.suspending a) (some a) o [0, a, b] [] [])
    (hhome : (s.task a).proc_ = some 0) (hstate : (s.task a).state_ = .block) :
    ∃ t, s.step (.process 0) = some t ∧ s.turns 0 (.process 0) = [] ∧
      Alternates t a (.suspended a) (some a) (some b) [0, b] [a] [] ∧
      (t.task a).proc_ = some 0 ∧ (t.task a).state_ = .block := by
  refine ⟨s.suspendErase 0 a, ?_, ?_, ?_, hhome, hstate⟩
  · simp [step, process, h.size, h.pc]
  · simp [turns, swapsIn, wakes, h.pc]
  · constructor <;> simp [suspendErase, setProcesser, assert, h.size, h.running, h.queue, h.new,
      h.suspended, h.waking, TaskQueue.nextWithoutLock, TaskQueue.eraseWithoutLock, ha, ha.symm]

theorem alternates_leave (h : Alternates s a (.suspended a) (some a) o q [a] []) :
    ∃ t, s.step (.process 0) = some t ∧ s.turns 0 (.process 0) = [] ∧
      Alternates t a .switched (some a) o q [a] [] ∧ t.task = s.task := by
  refine ⟨s.setProcesser 0 { s.processers_ 0 with pc := .switched }, ?_, ?_, ?_, rfl⟩
  · simp [step, process, h.size, h.pc]
  · simp [turns, swapsIn, wakes, h.pc]
  · constructor <;> simp [setProcesser, h.size, h.running, h.next, h.queue, h.new, h.suspended,
      h.waking]

theorem alternates_block (h : Alternates s a .switched (some a) o q [a] [])
    (hstate : (s.task a).state_ = .block) :
    ∃ t, s.step (.process 0) = some t ∧ s.turns 0 (.process 0) = [] ∧
      Alternates t a .block (some a) o q [a] [] ∧ t.task = s.task := by
  refine ⟨s.setProcesser 0 { s.processers_ 0 with pc := .block }, ?_, ?_, ?_, rfl⟩
  · simp [step, process, branch, h.size, h.pc, h.running, hstate]
  · simp [turns, swapsIn, wakes, h.pc]
  · constructor <;> simp [setProcesser, h.size, h.running, h.next, h.queue, h.new, h.suspended,
      h.waking]

theorem alternates_wakeup (h : Alternates s a .block (some a) o q [a] [])
    (hhome : (s.task a).proc_ = some 0) :
    ∃ t, s.step (.wakeupBySelfIo a) = some t ∧ s.turns 0 (.wakeupBySelfIo a) = [] ∧
      Alternates t a .block (some a) o q [] [(a, 0)] := by
  refine ⟨s.wakeupBySelfIo a, ?_, rfl, ?_⟩
  · simp [step, h.suspended]
  · rw [wakeupBySelfIo_eq hhome]
    constructor <;> simp [setTask, h.size, h.pc, h.running, h.next, h.queue, h.new, h.suspended,
      h.waking]

theorem alternates_push (h : Alternates s a .block (some a) o q [] [(a, 0)]) :
    ∃ t, s.step (.wakeupPush 0) = some t ∧ s.turns 0 (.wakeupPush 0) = [.wakeup a] ∧
      Alternates t a .block (some a) o (q ++ [a]) [] [] := by
  refine ⟨s.wakeupPush 0 a 0, ?_, ?_, ?_⟩
  · simp [step, h.waking]
  · simp [turns, swapsIn, wakes, h.waking]
  · constructor <;> simp [wakeupPush, setProcesser, assert, TaskQueue.pushWithoutLock, h.size, h.pc,
      h.running, h.next, h.queue, h.new, h.suspended, h.waking]

theorem alternates_next (h : Alternates s a .block (some a) (some b) q [] []) :
    ∃ t, s.step (.process 0) = some t ∧ s.turns 0 (.process 0) = [] ∧
      Alternates t b .loop (some b) none q [] [] := by
  refine ⟨s.setProcesser 0 { s.processers_ 0 with
    runningTask_ := some b, nextTask_ := none, pc := .loop }, ?_, ?_, ?_⟩
  · simp [step, process, branch, h.size, h.pc, h.running, h.next]
  · simp [turns, swapsIn, wakes, h.pc]
  · constructor <;> simp [setProcesser, h.size, h.queue, h.new, h.suspended, h.waking]

end Steps

theorem Alternates.reach {pc : ProcessPc} {o o' : Option TaskPtr} {q : TaskQueue}
    {l : TaskList} {w : List (TaskPtr × Nat)} {e : SchedulerStep} {os os' : List QueueEvent}
    {s₀ : Scheduler} (h : Alternates s a pc o o' q l w) (hpc : ¬ pc.Between)
    (hleaves : s.Unstolen 0 e)
    (hreach : Machine.Reach (Machine.observed step (turns 0)) InPass (s₀, []) (s, os))
    (hs : s.step e = some t) (hturns : s.turns 0 e = os') :
    Machine.Reach (Machine.observed step (turns 0)) InPass (s₀, []) (t, os ++ os') := by
  refine hreach.tail ?_ (Machine.observed_eq_some.mpr ⟨hs, by rw [hturns]⟩)
  refine ⟨?_, hleaves⟩
  rw [h.pc]
  exact hpc

/-- The turn of `a`, which suspends itself and is woken up behind `b`. -/
theorem alternates_turn {os : List QueueEvent} {s₀ : Scheduler} (ha : a ≠ 0)
    (h : Alternates s a .loop (some a) none [0, a, b] [] [])
    (hreach : Machine.Reach (Machine.observed step (turns 0)) InPass (s₀, []) (s, os)) :
    ∃ t, Machine.Reach (Machine.observed step (turns 0)) InPass (s₀, [])
      (t, os ++ [.swapIn a, .wakeup a]) ∧ Alternates t b .loop (some b) none [0, b, a] [] [] := by
  obtain ⟨s₁, hs₁, ht₁, h₁, hhome₁⟩ := alternates_swapIn h
  have hreach₁ := h.reach id (by trivial) hreach hs₁ ht₁
  obtain ⟨s₂, hs₂, ht₂, h₂, hhome₂, hstate₂⟩ := alternates_suspend h₁ hhome₁
  have hreach₂ := h₁.reach id (by trivial) hreach₁ hs₂ ht₂
  obtain ⟨s₃, hs₃, ht₃, h₃, hhome₃, hstate₃⟩ := alternates_erase ha h₂ hhome₂ hstate₂
  have hreach₃ := h₂.reach id (by trivial) hreach₂ hs₃ ht₃
  obtain ⟨s₄, hs₄, ht₄, h₄, htask₄⟩ := alternates_leave h₃
  have hreach₄ := h₃.reach id (by trivial) hreach₃ hs₄ ht₄
  obtain ⟨s₅, hs₅, ht₅, h₅, htask₅⟩ := alternates_block h₄ (htask₄ ▸ hstate₃)
  have hreach₅ := h₄.reach id (by trivial) hreach₄ hs₅ ht₅
  obtain ⟨s₆, hs₆, ht₆, h₆⟩ := alternates_wakeup h₅ (htask₅ ▸ htask₄ ▸ hhome₃)
  have hreach₆ := h₅.reach id (by trivial) hreach₅ hs₆ ht₆
  obtain ⟨s₇, hs₇, ht₇, h₇⟩ := alternates_push h₆
  have hreach₇ := h₆.reach id (by trivial) hreach₆ hs₇ ht₇
  obtain ⟨s₈, hs₈, ht₈, h₈⟩ := alternates_next h₇
  have hreach₈ := h₇.reach id (by trivial) hreach₇ hs₈ ht₈
  refine ⟨s₈, ?_, h₈⟩
  simpa using hreach₈

theorem alternates_turns {os : List QueueEvent} {s₀ : Scheduler} (ha : a ≠ 0) (hb : b ≠ 0)
    (h : Alternates s a .loop (some a) none [0, a, b] [] [])
    (hreach : Machine.Reach (Machine.observed step (turns 0)) InPass (s₀, []) (s, os)) (n : Nat) :
    ∃ t c d, c ≠ 0 ∧ (c = a ∧ d = b ∨ c = b ∧ d = a) ∧
      Alternates t c .loop (some c) none [0, c, d] [] [] ∧
      Machine.Reach (Machine.observed step (turns 0)) InPass (s₀, [])
        (t, os ++ alternation a b n) := by
  induction n generalizing s a b os with
  | zero => exact ⟨s, a, b, ha, .inl ⟨rfl, rfl⟩, h, by rwa [alternation, List.append_nil]⟩
  | succ n ih =>
      obtain ⟨t, hreach', h'⟩ := alternates_turn ha h hreach
      obtain ⟨u, c, d, hc, hcd, hu, hrun⟩ := ih hb ha h' hreach'
      refine ⟨u, c, d, hc, hcd.symm, hu, ?_⟩
      rw [List.append_assoc] at hrun
      exact hrun

/-- The tasks 0, 1 and 2 are in the queue, 3 is new, and task 0 has had its turn. -/
def firstTurn : List SchedulerStep :=
  List.flatten [.replicate 4 (.createTask 8), .replicate 3 (.addTask 0), .replicate 5 (.process 0),
    [.addTask 0, .process 0, .yield 0, .process 0, .process 0]]

/-- One pass, from one state, may swap in the tasks 1 and 2 as often as they are woken up behind
each other, while task 0 waits in front of them in the queue and task 3 in `newQueue_`. -/
theorem endless_pass : ∃ s, Machine.Reach step Machine.Free make s ∧
    (s.processers_ 0).runnableQueue_ = [0, 1, 2] ∧ (s.processers_ 0).newQueue_ = [3] ∧
    s.suspended = [] ∧ s.waking = [] ∧ s.Waits 0 0 ∧
    ∀ n, ∃ t, Machine.Reach (Machine.observed step (turns 0)) InPass (s, [])
        (t, alternation 1 2 n) ∧
      ((t.processers_ 0).runnableQueue_ = [0, 1, 2] ∨
        (t.processers_ 0).runnableQueue_ = [0, 2, 1]) ∧
      (t.processers_ 0).newQueue_ = [3] ∧ t.suspended = [] ∧ t.waking = [] ∧ t.Waits 0 0 := by
  have hstart : (Machine.run step Machine.Free make firstTurn).any (fun s => 0 < s.size ∧
      s.processers_ 0 = ⟨true, some 1, none, [0, 1, 2], [3], .loop⟩ ∧ s.suspended = [] ∧
      s.waking = []) = true := by
    decide +kernel
  obtain ⟨s, hs, hsize, hproc, hsuspended, hwaking⟩ := Machine.exists_of_run hstart
  have h : Alternates s 1 .loop (some 1) none [0, 1, 2] [] [] := by
    constructor <;> first | assumption | rw [hproc]
  have hwaits : ∀ {u e f}, e ≠ 0 → Alternates u e .loop (some e) none [0, e, f] [] [] →
      u.Waits 0 0 := by
    intro u e f he hu
    exact ⟨hu.queue ▸ List.mem_cons_self, fun _ => hu.pc⟩
  refine ⟨s, Machine.reach_of_run firstTurn hs, h.queue, h.new, hsuspended, hwaking,
    hwaits Nat.one_ne_zero h, fun n => ?_⟩
  obtain ⟨t, c, d, hc, hcd, ht, hreach⟩ :=
    alternates_turns Nat.one_ne_zero (Nat.succ_ne_zero 1) h .refl n
  refine ⟨t, hreach, ?_, ht.new, ht.suspended, ht.waking, hwaits hc ht⟩
  rcases hcd with ⟨rfl, rfl⟩ | ⟨rfl, rfl⟩
  · exact .inl ht.queue
  · exact .inr ht.queue

end Scheduler

end CppGo.Scheduling
