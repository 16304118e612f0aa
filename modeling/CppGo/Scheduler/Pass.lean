import CppGo.Scheduler.Conservation

/-!
# A pass of the inner loop

The inner loop of `Processer::Process` and `AddNewTasks` behind it, from a `front` that finds
a task on.  The tasks create tasks, yield, suspend themselves and end; the other threads do
what they like, as long as they wake up no task of the Processer and steal none.
-/

namespace CppGo.Scheduling

open CppGo.Lib

inductive SwapOut
  | yielded
  | suspended
  | done
deriving DecidableEq, Repr

/-- The next step of the dispatcher is no part of a `Steal` from `p`. -/
def DispatcherPc.Spares (p : Nat) : DispatcherPc → Prop
  | steal a => a.avg < a.cacheTaskCounts.getD a.i 0 → a.i ≠ p
  | stealRunnable a _ _ => a.i ≠ p
  | _ => True

instance (p : Nat) : ∀ d : DispatcherPc, Decidable (d.Spares p)
  | .steal a => inferInstanceAs (Decidable (a.avg < a.cacheTaskCounts.getD a.i 0 → a.i ≠ p))
  | .stealRunnable a _ _ => inferInstanceAs (Decidable (a.i ≠ p))
  | .idle | .sizeRunnable _ | .sizeNew _ _ | .deal _ | .addTask _ _ | .left _ => .isTrue trivial

namespace Scheduler

def own (p : Nat) : SchedulerStep → Bool
  | .process p' | .yield p' | .suspendBySelfIo p' | .runOn p' | .finish p' => p' = p
  | _ => false

def swapsIn (s : Scheduler) (p : Nat) : SchedulerStep → TaskList
  | .process p' =>
      if p' = p ∧ (s.processers_ p).pc = .loop then (s.processers_ p).runningTask_.toList else []
  | _ => []

/-- The task with which the event returns to `Process` of `p`, and how. -/
def swapsOut (s : Scheduler) (p : Nat) : SchedulerStep → List (TaskPtr × SwapOut)
  | .yield p' =>
      if p' = p then (s.processers_ p).runningTask_.toList.map (·, .yielded) else []
  | .finish p' =>
      if p' = p then (s.processers_ p).runningTask_.toList.map (·, .done) else []
  | .process p' =>
      match (s.processers_ p).pc with
      | .suspended tk => if p' = p then [(tk, .suspended)] else []
      | _ => []
  | _ => []

def creates (s : Scheduler) : SchedulerStep → TaskList
  | .createTask stack_size => [((s.getFreeTaskList stack_size).getD (s.newTask stack_size)).2]
  | _ => []

def gives (s : Scheduler) (p : Nat) : SchedulerStep → TaskList
  | .addTask k =>
      match s.creating[k]? with
      | some (tk, p') => if p' = p then [tk] else []
      | none => []
  | .avgTotalTasks =>
      match s.dispatcher with
      | .addTask a slist => if a.i = p then slist else []
      | .left tasks => if 0 = p then tasks else []
      | _ => []
  | _ => []

def takes (s : Scheduler) (p : Nat) : SchedulerStep → TaskList
  | .process p' =>
      match (s.processers_ p).pc with
      | .addPop _ => if p' = p then (s.processers_ p).newQueue_ else []
      | _ => []
  | _ => []

/-- The event wakes up no task of `p`, and steals none. -/
def Spares (s : Scheduler) (p : Nat) : SchedulerStep → Prop
  | .wakeupBySelfIo t => (s.task t).proc_ ≠ some p
  | .wakeupPush k => ∀ w ∈ s.waking[k]?, w.2 ≠ p
  | .avgTotalTasks => s.dispatcher.Spares p
  | _ => True

instance (s : Scheduler) (p : Nat) : ∀ e, Decidable (s.Spares p e)
  | .wakeupBySelfIo t => inferInstanceAs (Decidable ((s.task t).proc_ ≠ some p))
  | .wakeupPush k => inferInstanceAs (Decidable (∀ w ∈ s.waking[k]?, w.2 ≠ p))
  | .avgTotalTasks => inferInstanceAs (Decidable (s.dispatcher.Spares p))
  | .newProcessThread | .createTask _ | .addTask _ | .process _ | .yield _ | .suspendBySelfIo _
  | .runOn _ | .finish _ => .isTrue trivial

end Scheduler

def ProcessPc.looked : ProcessPc → Bool
  | addPush _ _ => true
  | _ => false

/-- The state in a pass of one Processer.  `swapped` are the tasks that have been swapped in,
`late` those of them that had been created in the pass, `outcomes` how the `SwapIn`s have
ended, and `created` the tasks that have been created.  `added` has been added to `newQueue_`
before `AddNewTasks` has taken `popped` from there, and `later` afterwards; `steps` counts the
steps of the thread. -/
structure LoopPass where
  scheduler : Scheduler
  swapped : List TaskPtr
  late : List TaskPtr
  outcomes : List (TaskPtr × SwapOut)
  created : List TaskPtr
  added : List TaskPtr
  later : List TaskPtr
  popped : List TaskPtr
  steps : Nat
  ended : Bool

namespace LoopPass

def start (s : Scheduler) : LoopPass :=
  { scheduler := s
    swapped := []
    late := []
    outcomes := []
    created := []
    added := []
    later := []
    popped := []
    steps := 0
    ended := false }

def kept (S : LoopPass) : List TaskPtr :=
  (S.outcomes.filter fun o => o.2 = .yielded).map Prod.fst

def after (p : Nat) (S : LoopPass) (e : SchedulerStep) (t : Scheduler) : LoopPass :=
  let s := S.scheduler
  { scheduler := t
    swapped := S.swapped ++ s.swapsIn p e
    late := S.late ++ (s.swapsIn p e).filter fun tk => tk ∈ S.created
    outcomes := S.outcomes ++ s.swapsOut p e
    created := S.created ++ s.creates e
    added := S.added ++ if (s.processers_ p).pc.looked then [] else s.gives p e
    later := S.later ++ if (s.processers_ p).pc.looked then s.gives p e else []
    popped := S.popped ++ s.takes p e
    steps := if Scheduler.own p e then S.steps + 1 else S.steps
    -- the pass ends where the thread is in front of the next one
    ended := Scheduler.own p e && (t.processers_ p).pc = .front }

def step (p : Nat) (S : LoopPass) (e : SchedulerStep) : Option LoopPass :=
  if S.ended then none else (S.scheduler.step e).map (S.after p e)

/-- Nobody wakes up a task of the Processer or steals one. -/
def Undisturbed (p : Nat) (S : LoopPass) (e : SchedulerStep) : Prop := S.scheduler.Spares p e

instance (p : Nat) (S : LoopPass) (e : SchedulerStep) : Decidable (S.Undisturbed p e) :=
  inferInstanceAs (Decidable (S.scheduler.Spares p e))

end LoopPass

/-! ## The other threads -/

namespace Scheduler

variable {s t : Scheduler} {p p' : Nat} {tk : TaskPtr} {e : SchedulerStep}

/-- The step adds `l` to `newQueue_` of `p`, and leaves `p` and its running task alone. -/
structure Beside (s t : Scheduler) (p : Nat) (l : TaskList) : Prop where
  processer : t.processers_ p =
    { s.processers_ p with newQueue_ := (s.processers_ p).newQueue_ ++ l }
  task : ∀ tk, (s.processers_ p).runningTask_ = some tk →
    tk ∈ (s.processers_ p).runnableQueue_ → t.task tk = s.task tk
  suspended : ∀ tk ∈ s.suspended, (s.task tk).proc_ = some p → tk ∈ t.suspended
  size : s.size ≤ t.size

theorem Beside.of_same (hproc : t.processers_ p = s.processers_ p)
    (htask : ∀ tk, (s.processers_ p).runningTask_ = some tk →
      tk ∈ (s.processers_ p).runnableQueue_ → t.task tk = s.task tk)
    (hsuspended : s.suspended ⊆ t.suspended) (hsize : s.size ≤ t.size) : Beside s t p [] := by
  refine ⟨?_, htask, fun tk hmem _ => hsuspended hmem, hsize⟩
  rw [hproc, List.append_nil]

theorem Beside.refl : Beside s s p [] :=
  .of_same rfl (fun _ _ _ => rfl) (List.Subset.refl _) (Nat.le_refl _)

theorem Beside.pushNew {l : TaskList} (hproc : t.processers_ = (s.pushNew p' l).processers_)
    (htask : t.task = s.task) (hsuspended : t.suspended = s.suspended) (hsize : t.size = s.size) :
    Beside s t p (if p' = p then l else []) := by
  refine ⟨?_, fun _ _ _ => by rw [htask], fun tk hmem _ => hsuspended ▸ hmem, hsize.ge⟩
  rw [hproc]
  by_cases hp : p' = p
  · subst hp
    rw [if_pos rfl]
    exact Function.update_self ..
  · rw [if_neg hp, List.append_nil]
    exact Function.update_of_ne (Ne.symm hp) ..

structure Alone (s t : Scheduler) (p : Nat) : Prop where
  task : ∀ tk, (s.processers_ p).runningTask_ ≠ some tk → t.task tk = s.task tk
  suspended : s.suspended ⊆ t.suspended
  size : t.size = s.size

theorem alone_setProcesser {x : Processer} : Alone s (s.setProcesser p x) p :=
  ⟨fun _ _ => rfl, List.Subset.refl _, rfl⟩

theorem alone_assert {b : Bool} {x : Processer} : Alone s ((s.assert b).setProcesser p x) p :=
  ⟨fun _ _ => rfl, List.Subset.refl _, rfl⟩

theorem alone_setTask {r : Task} {x : Processer} (hrun : (s.processers_ p).runningTask_ = some tk) :
    Alone s ((s.setTask tk r).setProcesser p x) p := by
  refine ⟨fun tk' hne => ?_, List.Subset.refl _, rfl⟩
  apply Function.update_of_ne
  rintro rfl
  exact hne hrun

theorem alone_branch (hrun : (s.processers_ p).runningTask_ = some tk) :
    Alone s (s.branch p tk) p := by
  unfold branch
  simp only
  split
  · exact alone_setProcesser
  · exact alone_setProcesser
  · exact alone_assert
  · exact alone_assert
  · exact alone_assert
  · exact ⟨(alone_setTask (x := s.processers_ p) hrun).task, List.Subset.refl _, rfl⟩
  · exact ⟨fun _ _ => rfl, List.Subset.refl _, rfl⟩

theorem alone_process (hs : s.process p = some t) : Alone s t p := by
  cases processed hs with
  | swapIn _ hrun => exact alone_setTask hrun
  | suspendErase => exact ⟨fun _ _ => rfl, List.subset_append_left _ _, rfl⟩
  | branch _ hrun => exact alone_branch hrun
  | unpicked => exact ⟨fun _ _ => rfl, List.Subset.refl _, rfl⟩
  | front | addEmpty | addPop | addPush | frontAgain | waitLoop | loopEnd | suspended =>
      exact alone_setProcesser

theorem Beside.of_local (h : s.Coherent) (hl : Local p' s t) (ha : Alone s t p') (hp : p' ≠ p) :
    Beside s t p [] := by
  refine .of_same (hl.processers p (Ne.symm hp)) ?_ ha.suspended ha.size.ge
  intro tk hrun hmem
  apply ha.task
  intro hrun'
  exact h.not_held hp hrun' .runnable hmem

theorem beside_createTask (h : s.Coherent) (n : Int) : Beside s (s.createTask n) p [] := by
  have hcreated := s.created n
  generalize s.createTask n = t at *
  cases hcreated with
  | reused => exact .of_same rfl (fun _ _ _ => rfl) (List.Subset.refl _) (Nat.le_refl _)
  | new =>
      refine .of_same rfl (fun tk hrun _ => ?_) (List.Subset.refl _) (Nat.le_refl _)
      exact Function.update_of_ne (h.lt_allocated hrun).ne ..

theorem beside_wakeupBySelfIo (h : s.Coherent) (hmem : tk ∈ s.suspended)
    (hhome : (s.task tk).proc_ ≠ some p) : Beside s (s.wakeupBySelfIo tk) p [] := by
  obtain ⟨-, p', hp'⟩ := h.suspended tk hmem
  rw [wakeupBySelfIo_eq hp']
  refine ⟨?_, fun tk' _ hqueue => ?_, fun tk' hmem' hhome' => ?_, Nat.le_refl _⟩
  · rw [List.append_nil]
    rfl
  · apply Function.update_of_ne
    rintro rfl
    exact h.tidy.not_shared (q := .runnable) (g := .suspended) hqueue hmem
  · have hne : tk' ≠ tk := by
      rintro rfl
      exact hhome hhome'
    exact (List.mem_erase_of_ne hne).mpr hmem'

theorem Beside.setDispatcher {d : DispatcherPc} : Beside s { s with dispatcher := d } p [] :=
  .of_same rfl (fun _ _ _ => rfl) (List.Subset.refl _) (Nat.le_refl _)

theorem Beside.stolen {x : Processer} (hproc : t.processers_ = Function.update s.processers_ p' x)
    (hp : p' ≠ p) (htask : t.task = s.task) (hsuspended : t.suspended = s.suspended)
    (hsize : t.size = s.size) : Beside s t p [] := by
  refine .of_same ?_ (fun _ _ _ => by rw [htask]) (hsuspended ▸ List.Subset.refl _) hsize.ge
  rw [hproc]
  exact Function.update_of_ne (Ne.symm hp) ..

theorem beside_avgTotalTasks (hspares : s.Spares p .avgTotalTasks) :
    Beside s s.avgTotalTasks p (s.gives p .avgTotalTasks) := by
  unfold Scheduler.avgTotalTasks gives
  unfold Spares at hspares
  simp only at hspares
  cases hd : s.dispatcher with
  | idle =>
      simp only
      split
      · exact .refl
      · exact .setDispatcher
  | sizeRunnable cacheTaskCounts =>
      simp only
      split <;> exact .setDispatcher
  | sizeNew cacheTaskCounts size => exact .setDispatcher
  | steal a =>
      rw [hd] at hspares
      simp only [Scheduler.steal]
      split
      · split
        · exact .stolen rfl (hspares ‹_›) rfl rfl rfl
        · exact .setDispatcher
      · exact .setDispatcher
  | stealRunnable a n slist =>
      rw [hd] at hspares
      exact .stolen rfl hspares rfl rfl rfl
  | deal a =>
      simp only [Scheduler.deal]
      split
      · split <;> exact .setDispatcher
      · exact .setDispatcher
  | addTask a slist => exact .pushNew rfl rfl rfl rfl
  | left tasks =>
      simp only
      split
      · rename_i hempty
        rw [List.isEmpty_iff.mp hempty, ite_self]
        exact .setDispatcher
      · exact .pushNew rfl rfl rfl rfl

/-- What a step of another thread does to the Processer. -/
theorem step_beside (h : s.Coherent) (hs : s.step e = some t) (hown : own p e = false)
    (hspares : s.Spares p e) : Beside s t p (s.gives p e) := by
  cases stepped hs with
  | newProcessThread =>
      exact .of_same rfl (fun _ _ _ => rfl) (List.Subset.refl _) (Nat.le_succ _)
  | createTask n => exact beside_createTask h n
  | addTask hk =>
      simp only [gives, hk]
      exact .pushNew rfl rfl rfl rfl
  | process _ hs =>
      exact .of_local h (local_process hs) (alone_process hs) (by simpa [own] using hown)
  | yield | runOn =>
      exact .of_local h local_setProcesser alone_setProcesser (by simpa [own] using hown)
  | @suspendBySelfIo p' tk hpc =>
      have halone : Alone s (s.suspendBySelfIo p' tk) p' :=
        ⟨(alone_setTask (x := s.processers_ p') (h.exec hpc).1).task, List.Subset.refl _, rfl⟩
      exact .of_local h local_suspendBySelfIo halone (by simpa [own] using hown)
  | finish hpc =>
      exact .of_local h local_finish (alone_setTask (h.exec hpc).1) (by simpa [own] using hown)
  | wakeupBySelfIo hmem => exact beside_wakeupBySelfIo h hmem hspares
  | @wakeupPush k tk p' hk => exact .stolen rfl (hspares (tk, p') hk) rfl rfl rfl
  | avgTotalTasks => exact beside_avgTotalTasks hspares

end Scheduler

end CppGo.Scheduling
