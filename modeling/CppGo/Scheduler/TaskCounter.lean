import CppGo.Lib.Tally
import CppGo.Scheduler.TaskBodyContract
import CppGo.Scheduler.TaskLife

/-!
# `taskCount_`

`CreateTask` counts a task when it has got it, and `Process` takes it off the counter between the
critical section in which it leaves its queue and `Add2FreeTaskList`.  The threads of a program
that wait for the end of all tasks read the counter in `TaskCount` and `IsEmpty`.
-/

namespace CppGo.Scheduling

open CppGo.Lib

/-- `uncounted` are the tasks of the calls of `CreateTask` that are at `++taskCount_`, and
`decreased` the Processers that are between `DecreaseTaskCounter` and `Add2FreeTaskList`. -/
structure CountedScheduler where
  scheduler : Scheduler
  taskCount_ : BitVec 32
  uncounted : List TaskPtr
  decreased : Nat → Bool

inductive CounterStep
  /-- a step of the scheduler -/
  | scheduler (e : SchedulerStep)
  /-- `++taskCount_` of the call `k` of `CreateTask` -/
  | increase (k : Nat)
  /-- `DecreaseTaskCounter`, called by the thread of `p` -/
  | decrease (p : Nat)
deriving DecidableEq, Repr

namespace CountedScheduler

def make : CountedScheduler :=
  { scheduler := .make
    taskCount_ := 0
    uncounted := []
    decreased := fun _ => false }

def taskCount (w : CountedScheduler) : BitVec 32 := w.taskCount_

def isEmpty (w : CountedScheduler) : Bool := w.taskCount_ = 0

def ready (w : CountedScheduler) : SchedulerStep → Bool
  | .addTask k => (w.scheduler.creating[k]?).all fun c => decide (c.1 ∉ w.uncounted)
  | .process p => (w.scheduler.processers_ p).pc ≠ .doneAdvance || w.decreased p
  | _ => true

def follow (w : CountedScheduler) (s : Scheduler) : SchedulerStep → CountedScheduler
  | .createTask stack_size =>
      { w with scheduler := s, uncounted := w.uncounted ++ [w.scheduler.createdTask stack_size] }
  | .process p => { w with scheduler := s, decreased := Function.update w.decreased p false }
  | _ => { w with scheduler := s }

def step (w : CountedScheduler) : CounterStep → Option CountedScheduler
  | .scheduler e => if w.ready e then (w.scheduler.step e).map fun s => w.follow s e else none
  | .increase k => match w.uncounted[k]? with
    | some _ => some { w with
        taskCount_ := w.taskCount_ + 1
        uncounted := w.uncounted.eraseIdx k }
    | none => none
  | .decrease p =>
      if (w.scheduler.processers_ p).pc = .doneAdvance ∧ w.decreased p = false then
        some { w with
          taskCount_ := w.taskCount_ - 1
          decreased := Function.update w.decreased p true }
      else none

/-- The task has been counted and not taken off: it is at one of the places of a task that has not
finished, or its Processer has not called `DecreaseTaskCounter` yet. -/
def Unfinished (w : CountedScheduler) (tk : TaskPtr) : Prop :=
  tk ∉ w.uncounted ∧ ∃ i : Place, tk ∈ w.scheduler.contents i ∧
    (i.IsLive ∨ ∃ p, i = .processer p .finished ∧ w.decreased p = false)

end CountedScheduler

namespace Scheduler

variable {s t : Scheduler} {e : SchedulerStep} {p q : Nat} {tk : TaskPtr} {x : Processer}

/-! ## What the steps of the scheduler do -/

theorem free_of_quiet (h : Quiet s t) : t.Free tk ↔ s.Free tk := by
  unfold Free
  rw [h.allocated, h.cache]

theorem pc_of_turn_reset {tk' : TaskPtr} {pc : ProcessPc}
    (h : pc.turn tk' = some (.reset tk)) : pc = .doneAdvance := by
  cases pc <;> first | rfl | cases h

/-- A task is taken out of `free_task_map_` by `CreateTask` only, and put in by
`Add2FreeTaskList`. -/
theorem free_step (hs : s.step e = some t) (he : ∀ n, e ≠ .createTask n)
    (hdone : ∀ p, e = .process p → (s.processers_ p).pc ≠ .doneAdvance) :
    t.Free tk ↔ s.Free tk := by
  have hreset : ∀ tk', s.turn e ≠ some (.reset tk') := by
    intro tk' hturn
    cases e with
    | process p =>
        obtain ⟨r, -, hpc⟩ := Option.bind_eq_some_iff.mp hturn
        exact hdone p rfl (pc_of_turn_reset hpc)
    | finish p =>
        simp only [turn] at hturn
        split at hturn <;> cases hturn
    | _ => cases hturn
  have hturns := turns_of_step he hs
  generalize s.turn e = o at hturns hreset
  cases hturns with
  | enter | ended => exact .rfl
  | @reset p tk' => exact absurd rfl (hreset tk')
  | none hquiet => exact free_of_quiet hquiet

theorem running_update (hx : p = q → x.runningTask_ = (s.processers_ q).runningTask_) :
    (Function.update s.processers_ q x p).runningTask_ = (s.processers_ p).runningTask_ := by
  by_cases hp : p = q
  · rw [hp, Function.update_self, hx hp]
  · rw [Function.update_of_ne hp]

theorem running_step (hs : s.step e = some t) (he : e ≠ .process p)
    (hpc : ∀ tk, (s.processers_ p).pc ≠ .exec tk) :
    (t.processers_ p).runningTask_ = (s.processers_ p).runningTask_ := by
  cases stepped hs with
  | newProcessThread => rfl
  | createTask n => rw [(createTask_frame n).1]
  | addTask => exact running_update (s := s.assert _) fun _ => rfl
  | process _ hs => rw [(local_process hs).processers p fun hp => he (hp ▸ rfl)]
  | yield hexec | suspendBySelfIo hexec | finish hexec =>
      exact running_update fun hp => absurd (hp ▸ hexec) (hpc _)
  | runOn => exact running_update fun _ => rfl
  | wakeupBySelfIo => rw [processers_wakeupBySelfIo]
  | wakeupPush => exact running_update fun _ => rfl
  | avgTotalTasks => exact avgTotalTasks_tasks.1 p

theorem creating_process (hs : s.process p = some t) : t.creating = s.creating := by
  cases processed hs with
  | branch =>
      unfold branch
      simp only
      split <;> rfl
  | _ => rfl

theorem creating_avgTotalTasks : s.avgTotalTasks.creating = s.creating := by
  unfold Scheduler.avgTotalTasks
  split
  case h_1 => split <;> rfl
  case h_2 =>
    simp only
    split <;> rfl
  case h_3 => rfl
  case h_4 =>
    unfold Scheduler.steal
    split
    · simp only
      split <;> rfl
    · rfl
  case h_5 => rfl
  case h_6 =>
    unfold Scheduler.deal
    split
    · simp only
      split <;> rfl
    · rfl
  case h_7 => rfl
  case h_8 => split <;> rfl

theorem creating_step (hs : s.step e = some t) (hmem : tk ∈ s.shared .creating)
    (he : ∀ k c, e = .addTask k → s.creating[k]? = some c → c.1 ≠ tk) :
    tk ∈ t.shared .creating := by
  obtain ⟨c, hc, rfl⟩ := List.mem_map.mp hmem
  apply List.mem_map_of_mem
  cases stepped hs with
  | createTask n =>
      have hcreated := s.created n
      generalize s.createTask n = t at hcreated
      cases hcreated <;> exact List.mem_append_left _ hc
  | @addTask k tk' p hk =>
      have hne := he k (tk', p) rfl hk
      rcases List.mem_cons.mp ((perm_eraseIdx hk).mem_iff.mp hc) with rfl | hrest
      · exact absurd rfl hne
      · exact hrest
  | process _ hs =>
      rw [creating_process hs]
      exact hc
  | wakeupBySelfIo =>
      unfold Scheduler.wakeupBySelfIo
      split <;> exact hc
  | avgTotalTasks =>
      rw [creating_avgTotalTasks]
      exact hc
  | newProcessThread | yield | suspendBySelfIo | runOn | finish | wakeupPush => exact hc

theorem creating_createdTask (n : Int) :
    s.createdTask n ∈ (s.createTask n).shared .creating := by
  have hcreated := s.created n
  generalize s.createTask n = t at *
  unfold createdTask getFreeTaskList
  cases hcreated with
  | reused hitr =>
      rw [hitr]
      exact List.mem_map_of_mem (List.mem_append_right _ (List.mem_singleton_self _))
  | new hnone =>
      rw [hnone]
      exact List.mem_map_of_mem (List.mem_append_right _ (List.mem_singleton_self _))

/-- At `Add2FreeTaskList` the task has left its queue. -/
theorem finished_of_running (hpc : (s.processers_ p).pc = .doneAdvance)
    (hrun : (s.processers_ p).runningTask_ = some tk) :
    tk ∈ s.contents (.processer p .finished) := by
  show tk ∈ (s.processers_ p).held .finished
  rw [Processer.held, if_pos hpc, hrun]
  exact List.mem_singleton_self tk

end Scheduler

namespace CountedScheduler

variable {w v : CountedScheduler} {e : SchedulerStep} {p : Nat} {tk : TaskPtr} {s : Scheduler}

/-! ## What is counted -/

def Alive (w : CountedScheduler) (tk : TaskPtr) : Prop :=
  ¬ w.scheduler.Free tk ∧ tk ∉ w.uncounted ∧
    ∀ p, w.decreased p = true → (w.scheduler.processers_ p).runningTask_ ≠ some tk

structure Counted (w : CountedScheduler) : Prop where
  coherent : w.scheduler.Coherent
  cached : w.scheduler.Cached
  calls : ∀ tk ∈ w.uncounted, tk ∈ w.scheduler.shared .creating
  once : w.uncounted.Nodup
  ended : ∀ p, w.decreased p = true → (w.scheduler.processers_ p).pc = .doneAdvance
  tally : Tallies w.taskCount_ w.Alive

theorem counted_make : make.Counted where
  coherent := Scheduler.coherent_make
  cached := Scheduler.cached_make
  calls := nofun
  once := .nil
  ended := nofun
  tally := .none fun tk h => h.1 (.inl (Nat.zero_le tk))

namespace Counted

variable (h : w.Counted)
include h

theorem alive_of_finished (htk : tk ∈ w.scheduler.contents (.processer p .finished))
    (hdecreased : w.decreased p = false) : w.Alive tk := by
  refine ⟨h.coherent.not_free_of_mem htk Scheduler.processer_ne_shared, fun hin => ?_,
    fun q hq hrun => ?_⟩
  · have hcreating : tk ∈ w.scheduler.contents (.shared .creating) := h.calls tk hin
    exact Scheduler.processer_ne_shared (h.coherent.tidy.place_unique htk hcreating)
  · have hplace := h.coherent.tidy.place_unique htk (Scheduler.finished_of_running (h.ended q hq) hrun)
    cases hplace
    rw [hq] at hdecreased
    cases hdecreased

theorem unfinished_iff : w.Unfinished tk ↔ w.Alive tk := by
  constructor
  · rintro ⟨hcounted, i, hmem, hlive | ⟨p, rfl, hdecreased⟩⟩
    · have hfree : i ≠ .shared .free := by
        rintro rfl
        exact hlive rfl
      refine ⟨h.coherent.not_free_of_mem hmem hfree, hcounted, fun p hp hrun => ?_⟩
      have hplace := h.coherent.tidy.place_unique hmem (Scheduler.finished_of_running (h.ended p hp) hrun)
      rw [hplace] at hlive
      exact hlive rfl
    · exact h.alive_of_finished hmem hdecreased
  · rintro ⟨hfree, hcounted, hrun⟩
    have hlt : tk < w.scheduler.allocated := by
      by_contra hle
      exact hfree (.inl (not_lt.mp hle))
    obtain ⟨i, hmem⟩ := (h.coherent.tidy.mem_iff tk).mp hlt
    refine ⟨hcounted, i, hmem, ?_⟩
    cases i with
    | shared g =>
        left
        rintro rfl
        exact hfree (.inr hmem)
    | processer p q =>
        by_cases hq : q = .finished
        · subst hq
          right
          refine ⟨p, rfl, ?_⟩
          have hheld : tk ∈ (w.scheduler.processers_ p).held .finished := hmem
          rw [Processer.held] at hheld
          split at hheld
          · rw [Option.mem_toList] at hheld
            by_contra hdecreased
            exact hrun p (Bool.eq_true_of_not_eq_false hdecreased) hheld
          · cases hheld
        · exact .inl hq

/-! ## The steps -/

theorem increase {k : Nat} (hk : w.uncounted[k]? = some tk) :
    ({ w with
        taskCount_ := w.taskCount_ + 1
        uncounted := w.uncounted.eraseIdx k } : CountedScheduler).Counted := by
  have hperm := Scheduler.perm_eraseIdx hk
  have hnodup := List.nodup_cons.mp (hperm.nodup_iff.mp h.once)
  have hcreating : tk ∈ w.scheduler.contents (.shared .creating) :=
    h.calls tk (List.mem_of_getElem? hk)
  have hfinished : ∀ p, w.decreased p = true → (w.scheduler.processers_ p).runningTask_ ≠ some tk := by
    intro p hp hrun
    have hplace := h.coherent.tidy.place_unique hcreating
      (Scheduler.finished_of_running (h.ended p hp) hrun)
    cases hplace
  constructor
  case coherent => exact h.coherent
  case cached => exact h.cached
  case calls => exact fun r hr => h.calls r (List.mem_of_mem_eraseIdx hr)
  case once => exact hnodup.2
  case ended => exact h.ended
  case tally =>
    refine h.tally.increase (x := tk) (fun halive => halive.2.1 (List.mem_of_getElem? hk)) fun r => ?_
    constructor
    · rintro ⟨hfree, hcounted, hrun⟩
      by_cases hr : r = tk
      · exact .inl hr
      · refine .inr ⟨hfree, fun hin => ?_, hrun⟩
        exact hcounted ((List.mem_cons.mp (hperm.mem_iff.mp hin)).resolve_left hr)
    · rintro (rfl | ⟨hfree, hcounted, hrun⟩)
      · exact ⟨h.coherent.not_free_of_mem hcreating nofun, hnodup.1, hfinished⟩
      · exact ⟨hfree, fun hin => hcounted (List.mem_of_mem_eraseIdx hin), hrun⟩

theorem decrease (hpc : (w.scheduler.processers_ p).pc = .doneAdvance)
    (hdecreased : w.decreased p = false) :
    ({ w with
        taskCount_ := w.taskCount_ - 1
        decreased := Function.update w.decreased p true } : CountedScheduler).Counted := by
  have hout : (w.scheduler.processers_ p).pc.SwappedOut := by
    rw [hpc]
    trivial
  obtain ⟨tk, hrun⟩ := Option.ne_none_iff_exists'.mp (h.coherent.running hout)
  have hupdate : ∀ q, Function.update w.decreased p true q = true ↔
      q = p ∨ w.decreased q = true := by
    intro q
    by_cases hq : q = p
    · rw [hq, Function.update_self]
      simp
    · rw [Function.update_of_ne hq]
      simp [hq]
  constructor
  case coherent => exact h.coherent
  case cached => exact h.cached
  case calls => exact h.calls
  case once => exact h.once
  case ended =>
    intro q hq
    rcases (hupdate q).mp hq with rfl | hq
    · exact hpc
    · exact h.ended q hq
  case tally =>
    refine h.tally.decrease
      (h.alive_of_finished (Scheduler.finished_of_running hpc hrun) hdecreased) fun r => ?_
    constructor
    · rintro ⟨hfree, hcounted, hrunning⟩
      refine ⟨⟨hfree, hcounted, fun q hq => hrunning q ((hupdate q).mpr (.inr hq))⟩, ?_⟩
      rintro rfl
      exact hrunning p ((hupdate p).mpr (.inl rfl)) hrun
    · rintro ⟨⟨hfree, hcounted, hrunning⟩, hne⟩
      refine ⟨hfree, hcounted, fun q hq => ?_⟩
      rcases (hupdate q).mp hq with rfl | hq
      · show (w.scheduler.processers_ q).runningTask_ ≠ some r
        rw [hrun]
        exact fun heq => hne (Option.some.inj heq).symm
      · exact hrunning q hq

theorem createTask (n : Int) :
    ({ w with
        scheduler := w.scheduler.createTask n
        uncounted := w.uncounted ++ [w.scheduler.createdTask n] } : CountedScheduler).Counted := by
  have hs : w.scheduler.step (.createTask n) = some (w.scheduler.createTask n) := rfl
  obtain ⟨hfree, -, hfree', -⟩ := Scheduler.createdTask_spec h.coherent h.cached n
  obtain ⟨hproc, -⟩ := Scheduler.createTask_frame (s := w.scheduler) n
  have hnew : w.scheduler.createdTask n ∉ w.uncounted := by
    intro hin
    have hcreating : w.scheduler.createdTask n ∈ w.scheduler.contents (.shared .creating) :=
      h.calls _ hin
    exact h.coherent.not_free_of_mem hcreating nofun hfree
  constructor
  case coherent => exact h.coherent.step hs
  case cached => exact h.cached.step h.coherent hs
  case calls =>
    intro r hr
    rcases List.mem_append.mp hr with hold | hcreated
    · exact Scheduler.creating_step hs (h.calls r hold) fun _ _ he => by cases he
    · rw [List.mem_singleton.mp hcreated]
      exact Scheduler.creating_createdTask n
  case once =>
    exact List.nodup_append.mpr ⟨h.once, List.nodup_singleton _,
      fun r hr r' hr' heq => hnew (List.mem_singleton.mp hr' ▸ heq ▸ hr)⟩
  case ended =>
    show ∀ p, w.decreased p = true → ((w.scheduler.createTask n).processers_ p).pc = _
    rw [hproc]
    exact h.ended
  case tally =>
    refine h.tally.congr fun r => ?_
    unfold Alive
    simp only [hproc, hfree', List.mem_append, List.mem_singleton]
    by_cases hr : r = w.scheduler.createdTask n
    · subst hr
      simp [hfree]
    · simp [hr, Ne.symm hr]

theorem recycle (hs : w.scheduler.process p = some s)
    (hstep : w.scheduler.step (.process p) = some s)
    (hpc : (w.scheduler.processers_ p).pc = .doneAdvance) (hdecreased : w.decreased p = true) :
    ({ w with
        scheduler := s
        decreased := Function.update w.decreased p false } : CountedScheduler).Counted := by
  have hout : (w.scheduler.processers_ p).pc.SwappedOut := by
    rw [hpc]
    trivial
  obtain ⟨tk, hrun⟩ := Option.ne_none_iff_exists'.mp (h.coherent.running hout)
  have hfree : ∀ r, s.Free r ↔ r = tk ∨ w.scheduler.Free r := by
    intro r
    obtain rfl : s = w.scheduler.branch p tk := by
      unfold Scheduler.process at hs
      simp only [hpc, hrun, Option.some.injEq] at hs
      exact hs.symm
    exact Scheduler.free_doneAdvance hpc
  have hother : ∀ q, Function.update w.decreased p false q = true ↔ q ≠ p ∧ w.decreased q = true := by
    intro q
    by_cases hq : q = p
    · rw [hq, Function.update_self]
      simp
    · rw [Function.update_of_ne hq]
      simp [hq]
  have hne : ∀ q ≠ p, SchedulerStep.process p ≠ .process q := fun q hq heq => by
    cases heq
    exact hq rfl
  have hnot : ∀ q, w.decreased q = true → ∀ r, (w.scheduler.processers_ q).pc ≠ .exec r := by
    intro q hq r hexec
    rw [h.ended q hq] at hexec
    cases hexec
  constructor
  case coherent => exact h.coherent.step hstep
  case cached => exact h.cached.step h.coherent hstep
  case calls => exact fun r hr => Scheduler.creating_step hstep (h.calls r hr) fun _ _ he => by cases he
  case once => exact h.once
  case ended =>
    intro q hq
    obtain ⟨hqp, hq⟩ := (hother q).mp hq
    show (s.processers_ q).pc = _
    rw [Scheduler.pc_step hstep (hne q hqp) (hnot q hq) nofun]
    exact h.ended q hq
  case tally =>
    refine h.tally.congr fun r => ?_
    constructor
    · rintro ⟨hnotfree, hcounted, hrunning⟩
      have hr : r ≠ tk ∧ ¬ w.scheduler.Free r := by
        rw [hfree, not_or] at hnotfree
        exact hnotfree
      refine ⟨hr.2, hcounted, fun q hq => ?_⟩
      by_cases hqp : q = p
      · rw [hqp, hrun]
        exact fun heq => hr.1 (Option.some.inj heq).symm
      · rw [← Scheduler.running_step hstep (hne q hqp) (hnot q hq)]
        exact hrunning q ((hother q).mpr ⟨hqp, hq⟩)
    · rintro ⟨hnotfree, hcounted, hrunning⟩
      refine ⟨?_, hcounted, fun q hq => ?_⟩
      · rw [hfree, not_or]
        refine ⟨?_, hnotfree⟩
        rintro rfl
        exact hrunning p hdecreased hrun
      · obtain ⟨hqp, hq⟩ := (hother q).mp hq
        show (s.processers_ q).runningTask_ ≠ some r
        rw [Scheduler.running_step hstep (hne q hqp) (hnot q hq)]
        exact hrunning q hq

theorem pass (hs : w.scheduler.step e = some s) (hready : w.ready e = true)
    (he : ∀ n, e ≠ .createTask n)
    (hdone : ∀ p, e = .process p → (w.scheduler.processers_ p).pc ≠ .doneAdvance) :
    ({ w with scheduler := s } : CountedScheduler).Counted := by
  have hne : ∀ q, w.decreased q = true → e ≠ .process q :=
    fun q hq heq => hdone q heq (h.ended q hq)
  have hnot : ∀ q, w.decreased q = true → ∀ r, (w.scheduler.processers_ q).pc ≠ .exec r := by
    intro q hq r hexec
    rw [h.ended q hq] at hexec
    cases hexec
  constructor
  case coherent => exact h.coherent.step hs
  case cached => exact h.cached.step h.coherent hs
  case calls =>
    intro r hr
    refine Scheduler.creating_step hs (h.calls r hr) fun k c heq hk hc => ?_
    subst heq
    subst hc
    simp only [ready, hk, Option.all_some, decide_eq_true_eq] at hready
    exact hready hr
  case once => exact h.once
  case ended =>
    intro q hq
    show (s.processers_ q).pc = _
    rw [Scheduler.pc_step hs (hne q hq) (hnot q hq) fun _ r => by rw [h.ended q hq]; nofun]
    exact h.ended q hq
  case tally =>
    refine h.tally.congr fun r => ?_
    unfold Alive
    refine and_congr (not_congr (Scheduler.free_step hs he hdone)) (and_congr .rfl ?_)
    refine forall_congr' fun q => forall_congr' fun hq => ?_
    show (s.processers_ q).runningTask_ ≠ some r ↔ _
    rw [Scheduler.running_step hs (hne q hq) (hnot q hq)]

theorem step {a : CounterStep} (hs : w.step a = some v) : v.Counted := by
  cases a with
  | increase k =>
      simp only [CountedScheduler.step] at hs
      split at hs
      · rename_i tk hk
        cases hs
        exact h.increase hk
      · cases hs
  | decrease p =>
      obtain ⟨⟨hpc, hdecreased⟩, hs⟩ := Option.ite_none_right_eq_some.mp hs
      cases hs
      exact h.decrease hpc hdecreased
  | scheduler e =>
      obtain ⟨hready, hs⟩ := Option.ite_none_right_eq_some.mp hs
      obtain ⟨s, hstep, rfl⟩ := Option.map_eq_some_iff.mp hs
      cases e with
      | createTask n =>
          cases hstep
          exact h.createTask n
      | process p =>
          show ({ w with
            scheduler := s
            decreased := Function.update w.decreased p false } : CountedScheduler).Counted
          by_cases hpc : (w.scheduler.processers_ p).pc = .doneAdvance
          · have hdecreased : w.decreased p = true := by simpa [ready, hpc] using hready
            have hprocess := (Option.ite_none_right_eq_some.mp hstep).2
            exact h.recycle hprocess hstep hpc hdecreased
          · have hdecreased : w.decreased p = false := by
              by_contra hp
              exact hpc (h.ended p (Bool.eq_true_of_not_eq_false hp))
            have hsame : Function.update w.decreased p false = w.decreased := by
              rw [← hdecreased, Function.update_eq_self]
            rw [hsame]
            refine h.pass hstep hready nofun fun q hq => ?_
            cases hq
            exact hpc
      | _ => exact h.pass hstep hready nofun fun _ heq => by cases heq

end Counted

/-- `TaskCount()` is the number of the tasks that have been counted and not taken off, modulo
`2 ^ 32`; with fewer tasks, and no call of `CreateTask` before its count, `IsEmpty()` says that no
task is queued, suspended, running or on its way, and that each thread behind the end of a task has
taken it off. -/
structure CountContract (w : CountedScheduler) : Prop where
  count : Tallies w.taskCount w.Unfinished
  empty : w.scheduler.allocated < 2 ^ 32 → w.uncounted = [] →
    (w.isEmpty = true ↔ (∀ i : Place, i.IsLive → w.scheduler.contents i = []) ∧
      ∀ p, (w.scheduler.processers_ p).pc = .doneAdvance → w.decreased p = true)

theorem taskCount_of_reach (h : Machine.Reach step Machine.Free make w) : w.CountContract := by
  have hcounted : w.Counted := h.invariant counted_make fun _ _ _ hw _ hs => hw.step hs
  have hcount : Tallies w.taskCount w.Unfinished := hcounted.tally.congr fun tk =>
    hcounted.unfinished_iff
  refine ⟨hcount, fun hlt hnone => ?_⟩
  have hbound : ∀ tk, w.Unfinished tk → tk < w.scheduler.allocated := by
    rintro tk ⟨-, i, hmem, -⟩
    exact (hcounted.coherent.tidy.mem_iff tk).mpr ⟨i, hmem⟩
  have hzero := hcount.eq_zero_iff hbound hlt
  have hempty : w.isEmpty = true ↔ w.taskCount = 0 := decide_eq_true_iff
  rw [hempty, hzero]
  constructor
  · intro hunfinished
    refine ⟨fun i hlive => ?_, fun p hpc => ?_⟩
    · apply List.eq_nil_iff_forall_not_mem.mpr
      intro tk hmem
      exact hunfinished tk ⟨by rw [hnone]; exact List.not_mem_nil, i, hmem, .inl hlive⟩
    · have hout : (w.scheduler.processers_ p).pc.SwappedOut := by
        rw [hpc]
        trivial
      obtain ⟨tk, hrun⟩ := Option.ne_none_iff_exists'.mp (hcounted.coherent.running hout)
      by_contra hdecreased
      exact hunfinished tk ⟨by rw [hnone]; exact List.not_mem_nil, _,
        Scheduler.finished_of_running hpc hrun, .inr ⟨p, rfl, Bool.eq_false_of_not_eq_true hdecreased⟩⟩
  · rintro ⟨hlive, hdone⟩ tk ⟨-, i, hmem, hi | ⟨p, rfl, hdecreased⟩⟩
    · rw [hlive i hi] at hmem
      cases hmem
    · have hheld : tk ∈ (w.scheduler.processers_ p).held .finished := hmem
      rw [Processer.held] at hheld
      split at hheld
      · rename_i hpc
        rw [hdone p hpc] at hdecreased
        cases hdecreased
      · cases hheld

/-- A task is created and counted, runs, and ends; another one is created and not counted yet. -/
def oneEnds : List CounterStep :=
  List.flatten [[.scheduler (.createTask 8), .increase 0, .scheduler (.addTask 0)],
    .replicate 6 (.scheduler (.process 0)), [.scheduler (.finish 0)],
    .replicate 3 (.scheduler (.process 0)), [.decrease 0, .scheduler (.createTask 8)]]

theorem taskCount_oneEnds :
    ∃ w, Machine.run step Machine.Free make oneEnds = some w ∧ w.isEmpty = true ∧
      w.scheduler.allocated = 2 ∧ w.uncounted = [1] ∧ w.CountContract := by
  have hrun : (Machine.run step Machine.Free make oneEnds).any (fun w => w.isEmpty = true ∧
      w.scheduler.allocated = 2 ∧ w.uncounted = [1]) = true := by decide +kernel
  obtain ⟨w, hw, hempty, hallocated, huncounted⟩ := Machine.exists_of_run hrun
  exact ⟨w, hw, hempty, hallocated, huncounted,
    taskCount_of_reach (Machine.reach_of_run oneEnds hw)⟩

end CountedScheduler

end CppGo.Scheduling
