import CppGo.Scheduler.OutsideSteps
import CppGo.Scheduler.ProcessSteps

/-!
# No task is lost or duplicated

Every step of every thread keeps the scheduler coherent, and puts tasks only at Processers
that have a thread.
-/

namespace CppGo.Scheduling

open CppGo.Lib

open scoped List

def DispatcherPc.Within (n : Nat) : DispatcherPc → Prop
  | stealRunnable a _ _ | addTask a _ => a.i < n
  | _ => True

namespace Scheduler

variable {s t u : Scheduler} {p k : Nat} {tk : TaskPtr} {x : Processer}

section Bounds

structure Bounded (s : Scheduler) : Prop where
  size_pos : 0 < s.size
  processers : ∀ p, s.size ≤ p → s.processers_ p = .make
  home : ∀ tk p, (s.task tk).proc_ = some p → p < s.size
  creating : ∀ c ∈ s.creating, c.2 < s.size
  waking : ∀ w ∈ s.waking, w.2 < s.size
  dispatcher : s.dispatcher.Within s.size

/-- The step is one of the thread of `p`, or one on the queues of `p`. -/
structure Local (p : Nat) (s t : Scheduler) : Prop where
  size : t.size = s.size
  processers : ∀ p' ≠ p, t.processers_ p' = s.processers_ p'
  home : ∀ tk p', (t.task tk).proc_ = some p' → p' = p ∨ (s.task tk).proc_ = some p'
  creating : t.creating ⊆ s.creating
  waking : t.waking ⊆ s.waking
  dispatcher : t.dispatcher = s.dispatcher

theorem Local.refl : Local p s s where
  size := rfl
  processers _ _ := rfl
  home _ _ := .inr
  creating := List.Subset.refl _
  waking := List.Subset.refl _
  dispatcher := rfl

theorem Local.trans (hst : Local p s t) (htu : Local p t u) : Local p s u where
  size := htu.size.trans hst.size
  processers p' hp := (htu.processers p' hp).trans (hst.processers p' hp)
  home tk p' h := by
    rcases htu.home tk p' h with hp | h
    · exact .inl hp
    · exact hst.home tk p' h
  creating := List.Subset.trans htu.creating hst.creating
  waking := List.Subset.trans htu.waking hst.waking
  dispatcher := htu.dispatcher.trans hst.dispatcher

theorem local_setProcesser : Local p s (s.setProcesser p x) :=
  { Local.refl with processers := fun _ hp => Function.update_of_ne hp _ _ }

theorem local_setTask {r : Task} (hr : ∀ p', r.proc_ = some p' →
    p' = p ∨ (s.task tk).proc_ = some p') : Local p s (s.setTask tk r) := by
  have htask : (s.setTask tk r).task = Function.update s.task tk r := rfl
  refine { @Local.refl s p with home := ?_ }
  intro tk' p' h
  by_cases htk : tk' = tk
  · subst htk
    rw [htask, Function.update_self] at h
    exact hr p' h
  · rw [htask, Function.update_of_ne htk] at h
    exact .inr h

theorem local_setState {state : TaskState} :
    Local p s (s.setTask tk { s.task tk with state_ := state }) :=
  local_setTask fun _ => .inr

theorem local_assert {b : Bool} : Local p s (s.assert b) :=
  { Local.refl with }

theorem local_suspendBySelfIo : Local p s (s.suspendBySelfIo p tk) :=
  (local_assert.trans local_setState).trans local_setProcesser

theorem local_finish : Local p s (s.finish p tk) :=
  local_setState.trans local_setProcesser

theorem local_suspendErase : Local p s (s.suspendErase p tk) :=
  { @Local.refl s p with processers := fun _ hp => Function.update_of_ne hp _ _ }

theorem local_branch : Local p s (s.branch p tk) := by
  unfold branch
  simp only
  split
  · exact local_setProcesser
  · exact local_setProcesser
  · exact local_assert.trans local_setProcesser
  · exact local_assert.trans local_setProcesser
  · exact local_assert.trans local_setProcesser
  · have hfree : Local p s (s.add2FreeTaskList tk) :=
      { local_setTask (r := { s.task tk with state_ := .runnable, proc_ := none }) nofun with }
    exact hfree.trans local_setProcesser
  · exact .refl

theorem local_process (hs : s.process p = some t) : Local p s t := by
  cases processed hs with
  | swapIn =>
      exact (local_setTask fun p' hp => .inl (Option.some.inj hp).symm).trans local_setProcesser
  | suspendErase => exact local_suspendErase
  | branch => exact local_branch
  | unpicked => exact local_assert
  | front | addEmpty | addPop | addPush | frontAgain | waitLoop | loopEnd | suspended =>
      exact local_setProcesser

theorem Bounded.of_local (h : s.Bounded) (hl : Local p s t) (hp : p < s.size) : t.Bounded where
  size_pos := hl.size ▸ h.size_pos
  processers p' hp' := by
    rw [hl.size] at hp'
    rw [hl.processers p' (by omega)]
    exact h.processers p' hp'
  home tk p' hhome := by
    rw [hl.size]
    rcases hl.home tk p' hhome with rfl | hhome
    · exact hp
    · exact h.home tk p' hhome
  creating c hc := hl.size ▸ h.creating c (hl.creating hc)
  waking w hw := hl.size ▸ h.waking w (hl.waking hw)
  dispatcher := by
    rw [hl.size, hl.dispatcher]
    exact h.dispatcher

theorem Bounded.setDispatcher {d : DispatcherPc} (h : s.Bounded) (hd : d.Within s.size) :
    ({ s with dispatcher := d } : Scheduler).Bounded :=
  { h with dispatcher := hd }

theorem nextActive_lt (hsize : 0 < s.size) (n idx : Nat) : (s.nextActive n idx).1 < s.size := by
  induction n generalizing idx with
  | zero => exact Nat.mod_lt _ hsize
  | succ n ih =>
      unfold nextActive
      simp only
      split
      · exact Nat.mod_lt _ hsize
      · exact ih _

theorem Bounded.addTask (h : s.Bounded) (tk : TaskPtr) : (s.addTask tk).Bounded := by
  have hadd : ∀ p n, p < s.size →
      ({ s with lastActive_ := n, creating := s.creating ++ [(tk, p)] } : Scheduler).Bounded := by
    intro p n hp
    refine { h with creating := ?_ }
    intro c hc
    rcases List.mem_append.mp hc with hc | hc
    · exact h.creating c hc
    · rw [List.mem_singleton.mp hc]
      exact hp
  unfold Scheduler.addTask
  simp only
  split
  · rename_i p hhome
    split
    · exact hadd p s.lastActive_ (h.home tk p hhome)
    · exact hadd _ _ (nextActive_lt h.size_pos _ _)
  · exact hadd _ _ (nextActive_lt h.size_pos _ _)

theorem Bounded.createTask (h : s.Bounded) (n : Int) : (s.createTask n).Bounded := by
  unfold Scheduler.createTask
  apply addTask
  unfold getFreeTaskList
  split
  · exact { h with }
  · refine { h with home := ?_ }
    intro tk p hhome
    have htask : (s.newTask n).1.task = Function.update s.task s.allocated
      { state_ := .runnable, proc_ := none, stack_size_ := n } := rfl
    by_cases htk : tk = s.allocated
    · subst htk
      rw [Option.getD_none, htask, Function.update_self] at hhome
      cases hhome
    · rw [Option.getD_none, htask, Function.update_of_ne htk] at hhome
      exact h.home tk p hhome

theorem Bounded.wakeupBySelfIo (h : s.Bounded) (tk : TaskPtr) :
    (s.wakeupBySelfIo tk).Bounded := by
  cases hhome : (s.task tk).proc_ with
  | none =>
      have hassert : s.wakeupBySelfIo tk = s.assert false := by
        unfold Scheduler.wakeupBySelfIo
        split
        · rename_i hsome
          cases hhome.symm.trans hsome
        · rfl
      rw [hassert]
      exact { h with }
  | some p =>
      have hp := h.home tk p hhome
      have hl : Local p s (s.setTask tk { s.task tk with state_ := .runnable }) :=
        local_setState
      rw [wakeupBySelfIo_eq hhome]
      refine { h.of_local hl hp with waking := ?_ }
      intro w hw
      rcases List.mem_append.mp hw with hw | hw
      · exact h.waking w hw
      · rw [List.mem_singleton.mp hw]
        exact hp

theorem Bounded.avgTotalTasks (h : s.Bounded) : s.avgTotalTasks.Bounded := by
  have hset : ∀ {p x}, p < s.size → (s.setProcesser p x).Bounded :=
    fun hp => h.of_local local_setProcesser hp
  unfold Scheduler.avgTotalTasks
  split
  case h_1 =>
    split
    · exact h
    · exact h.setDispatcher trivial
  case h_2 =>
    simp only
    split
    · exact h.setDispatcher trivial
    · apply h.setDispatcher
      split <;> trivial
  case h_3 => exact h.setDispatcher trivial
  case h_4 a hd =>
    unfold Scheduler.steal
    split
    · rename_i hi
      simp only
      split
      · apply (hset hi).setDispatcher
        split
        · trivial
        · exact hi
      · exact h.setDispatcher trivial
    · exact h.setDispatcher trivial
  case h_5 a n slist hd =>
    have hi : a.i < s.size := by
      have hwithin := h.dispatcher
      rwa [hd] at hwithin
    exact (h.of_local (local_assert.trans local_setProcesser) hi).setDispatcher trivial
  case h_6 a hd =>
    unfold Scheduler.deal
    split
    · rename_i hi
      simp only
      split
      · apply h.setDispatcher
        split
        · trivial
        · exact hi
      · exact h.setDispatcher trivial
    · exact h.setDispatcher trivial
  case h_7 a slist hd =>
    have hi : a.i < s.size := by
      have hwithin := h.dispatcher
      rwa [hd] at hwithin
    exact (hset hi).setDispatcher trivial
  case h_8 =>
    split
    · exact h.setDispatcher trivial
    · exact (hset h.size_pos).setDispatcher trivial

/-- A Processer that has left the start of `Process` has a thread. -/
theorem Bounded.lt_of_pc (h : s.Bounded) (hpc : (s.processers_ p).pc ≠ .front) : p < s.size := by
  by_contra hp
  apply hpc
  rw [h.processers p (by omega)]
  rfl

theorem Bounded.lt_of_exec (h : s.Bounded) (hpc : (s.processers_ p).pc = .exec tk) : p < s.size :=
  h.lt_of_pc (by rw [hpc]; nofun)

theorem Bounded.step {e : SchedulerStep} (h : s.Bounded) (hs : s.step e = some t) :
    t.Bounded := by
  cases stepped hs with
  | newProcessThread hidle =>
      constructor
      case size_pos => exact Nat.succ_pos _
      case processers =>
        intro p hp
        exact h.processers p (Nat.le_of_succ_le hp)
      case home =>
        intro tk p hhome
        exact Nat.lt_succ_of_lt (h.home tk p hhome)
      case creating =>
        intro c hc
        exact Nat.lt_succ_of_lt (h.creating c hc)
      case waking =>
        intro w hw
        exact Nat.lt_succ_of_lt (h.waking w hw)
      case dispatcher =>
        rw [hidle]
        trivial
  | createTask n => exact h.createTask n
  | @addTask k tk p hk =>
      have hl : Local p s ((s.assert !s.linked tk).pushNew p [tk]) :=
        local_assert.trans local_setProcesser
      refine { h.of_local hl (h.creating _ (List.mem_of_getElem? hk)) with creating := ?_ }
      intro c hc
      exact h.creating c (List.mem_of_mem_eraseIdx hc)
  | process hp hs => exact h.of_local (local_process hs) hp
  | yield hpc => exact h.of_local local_setProcesser (h.lt_of_exec hpc)
  | suspendBySelfIo hpc => exact h.of_local local_suspendBySelfIo (h.lt_of_exec hpc)
  | runOn hpc _ => exact h.of_local local_setProcesser (h.lt_of_pc (by rw [hpc]; nofun))
  | finish hpc => exact h.of_local local_finish (h.lt_of_exec hpc)
  | @wakeupBySelfIo tk hmem => exact h.wakeupBySelfIo tk
  | @wakeupPush k tk p hk =>
      have hl : Local p s ((s.assert !s.linked tk).setProcesser p
          { s.processers_ p with
            runnableQueue_ := (s.processers_ p).runnableQueue_.pushWithoutLock [tk] }) :=
        local_assert.trans local_setProcesser
      refine { h.of_local hl (h.waking _ (List.mem_of_getElem? hk)) with waking := ?_ }
      intro w hw
      exact h.waking w (List.mem_of_mem_eraseIdx hw)
  | avgTotalTasks => exact h.avgTotalTasks

end Bounds

theorem Coherent.step {e : SchedulerStep} (h : s.Coherent) (hs : s.step e = some t) :
    t.Coherent := by
  cases stepped hs with
  | newProcessThread hidle =>
      exact h.outside rfl (fun _ _ => rfl) rfl rfl h.sound
        (h.tidy.stay (.none rfl rfl) (fun _ => .refl _) fun _ => .refl _)
  | createTask n => exact h.createTask n
  | addTask hk => exact h.addTask hk
  | process hp hs => exact h.process hs
  | yield hpc => exact h.yield hpc
  | suspendBySelfIo hpc => exact h.suspendBySelfIo hpc
  | runOn hpc hback => exact h.runOn hpc hback
  | finish hpc => exact h.finish hpc
  | wakeupBySelfIo hmem => exact h.wakeupBySelfIo hmem
  | wakeupPush hk => exact h.wakeupPush hk
  | avgTotalTasks => exact h.avgTotalTasks

section Contract

/-- The task has been created and its function has not returned. -/
def Unfinished (s : Scheduler) (tk : TaskPtr) : Prop :=
  tk < s.allocated ∧ tk ∉ s.free_task_map_.values ∧ (s.task tk).state_ ≠ .done

def Executes (s : Scheduler) (p : Nat) (tk : TaskPtr) : Prop :=
  (s.processers_ p).pc = .exec tk ∨ (s.processers_ p).pc = .suspending tk ∨
    (s.processers_ p).pc = .suspended tk

theorem executes_iff : s.Executes p tk ↔ (s.processers_ p).pc.executing = some tk := by
  unfold Executes
  cases (s.processers_ p).pc <;> simp [ProcessPc.executing]

/-- The task has left its queue in `SuspendBySelfIO`, and `WakeupBySelfIO` has not put it
back. -/
def Suspended (s : Scheduler) (tk : TaskPtr) : Prop :=
  tk ∈ s.suspended ∨ tk ∈ s.shared .waking

def Exists (s : Scheduler) : Place → Prop
  | .processer p _ => p < s.size
  | .shared _ => True

/-- No task is lost, none is in two places or run by two Processers, and the pointers of a
Processer are good. -/
structure Conserves (s : Scheduler) : Prop where
  placed : ∀ tk, s.Unfinished tk → ∃ i : Place, i.IsLive ∧ s.Exists i ∧
    (s.contents i).count tk = 1 ∧ ∀ j, tk ∈ s.contents j → j = i
  executing : ∀ p tk, s.Executes p tk → (s.processers_ p).runningTask_ = some tk ∧
    (tk ∈ (s.processers_ p).runnableQueue_ ∨ s.Suspended tk)
  exclusive : ∀ p p' tk, s.Executes p tk → s.Executes p' tk → p = p'
  next : ∀ p tk, (s.processers_ p).nextTask_ = some tk → tk ∈ (s.processers_ p).runnableQueue_
  sound : s.fault = false

theorem coherent_make : make.Coherent where
  sound := rfl
  tidy := by
    have hempty : ∀ i, make.contents i = [] := by
      intro i
      cases i with
      | processer p q => cases q <;> rfl
      | shared g => cases g <;> rfl
    constructor
    · intro i
      rw [hempty]
      exact .nil
    · intro i j x hi
      rw [hempty] at hi
      cases hi
    · intro x
      constructor
      · exact fun hx => absurd hx (Nat.not_lt_zero x)
      · rintro ⟨i, hi⟩
        rw [hempty] at hi
        cases hi
  phase _ := .between trivial
  next _ _ := nofun
  suspended _ := nofun
  waking _ := nofun

theorem bounded_make : make.Bounded where
  size_pos := Nat.one_pos
  processers _ _ := rfl
  home _ _ := nofun
  creating _ := nofun
  waking _ := nofun
  dispatcher := trivial

theorem Bounded.exists_of_mem {i : Place} (h : s.Bounded) (hmem : tk ∈ s.contents i) :
    s.Exists i := by
  cases i with
  | shared g => trivial
  | processer p q =>
      show p < s.size
      by_contra hp
      have hmake : (s.processers_ p).held q = [] := by
        rw [h.processers p (by omega)]
        cases q <;> rfl
      change tk ∈ (s.processers_ p).held q at hmem
      rw [hmake] at hmem
      cases hmem

theorem Coherent.live_of_unfinished {i : Place} (h : s.Coherent) (htk : s.Unfinished tk)
    (hmem : tk ∈ s.contents i) : i.IsLive := by
  cases i with
  | shared g =>
      intro hg
      subst hg
      exact htk.2.1 hmem
  | processer p q =>
      intro hq
      subst hq
      change tk ∈ (s.processers_ p).held .finished at hmem
      rw [Processer.held] at hmem
      split at hmem
      · rename_i hpc
        have hphase := h.phase p
        rw [Option.mem_toList.mp hmem, hpc] at hphase
        cases hphase with
        | leaving hpc' _ _ => exact hpc'
        | ended hpc' _ _ => rcases hpc' with hpc' | hpc' <;> cases hpc'
        | erased hstate => exact htk.2.2 hstate
      · cases hmem

theorem Coherent.executing (h : s.Coherent) (hexec : s.Executes p tk) :
    (s.processers_ p).runningTask_ = some tk ∧ (s.task tk).proc_ = some p ∧
      (tk ∈ (s.processers_ p).runnableQueue_ ∨ s.Suspended tk) := by
  rcases hexec with hpc | hpc | hpc
  · obtain ⟨hrun, hmem, _, hhome⟩ := h.exec hpc
    exact ⟨hrun, hhome, .inl hmem⟩
  · obtain ⟨hrun, hmem, _, hhome⟩ := h.suspending hpc
    exact ⟨hrun, hhome, .inl hmem⟩
  · have hphase := h.phase p
    rw [hpc] at hphase
    generalize (s.processers_ p).runningTask_ = o at hphase
    cases hphase with
    | between hpc' => exact hpc'.elim
    | leaving hpc' hhome hat =>
        cases hpc'
        refine ⟨rfl, hhome, ?_⟩
        cases hat with
        | queued hmem _ => exact .inl hmem
        | suspended hmem => exact .inr (.inl hmem)
        | woken hmem => exact .inr (.inr hmem)
    | ended hpc' _ _ => rcases hpc' with hpc' | hpc' <;> cases hpc'

theorem conserves_of_coherent (h : s.Coherent) (hb : s.Bounded) : s.Conserves where
  placed tk htk := by
    obtain ⟨i, hi⟩ := (h.tidy.mem_iff tk).mp htk.1
    refine ⟨i, h.live_of_unfinished htk hi, hb.exists_of_mem hi, h.tidy.count_eq_one hi, ?_⟩
    intro j hj
    exact h.tidy.place_unique hj hi
  executing p tk hexec := ⟨(h.executing hexec).1, (h.executing hexec).2.2⟩
  exclusive p p' tk hexec hexec' := by
    have hhome := (h.executing hexec).2.1
    rw [(h.executing hexec').2.1] at hhome
    exact (Option.some.inj hhome).symm
  next := h.next
  sound := h.sound

/-- In every state reached, whatever the order of the critical sections. -/
theorem conserves_of_reach (h : Machine.Reach step Machine.Free make s) : s.Conserves :=
  conserves_of_coherent
    (h.invariant coherent_make fun _ _ _ hcoh _ hs => hcoh.step hs)
    (h.invariant bounded_make fun _ _ _ hbnd _ hs => hbnd.step hs)

/-- Task 0 is woken up before it has switched out, with task 1 as the next one, and the
dispatcher balances the queues. -/
def stealAroundRunning : List SchedulerStep :=
  .replicate 4 (.createTask 8) ++ .replicate 4 (.addTask 0) ++ [.newProcessThread] ++
    .replicate 6 (.process 0) ++
    [.suspendBySelfIo 0, .process 0, .wakeupBySelfIo 0, .wakeupPush 0] ++
    .replicate 14 .avgTotalTasks

theorem conserves_stealAroundRunning :
    ∃ s, Machine.run step Machine.Free make stealAroundRunning = some s ∧
      (s.processers_ 0).runnableQueue_ = [0, 1] ∧ (s.processers_ 0).nextTask_ = some 1 ∧
      (s.processers_ 1).newQueue_ = [2, 3] ∧ s.Conserves :=
  ⟨_, rfl, rfl, rfl, rfl, conserves_of_reach (Machine.reach_of_run stealAroundRunning rfl)⟩

end Contract

end Scheduler

end CppGo.Scheduling
