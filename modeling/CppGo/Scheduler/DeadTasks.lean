import CppGo.Scheduler.Conservation
import CppGo.Scheduler.Shutdown

/-!
# The scheduler without its dead tasks

A state in which `ReleaseTask` has taken tasks out is compared with one that `step` can reach:
there the Processers that have left `Process` do not point to the dead tasks, and these wait
in front of the tasks that are created.
-/

namespace CppGo.Scheduling

open CppGo.Lib

open scoped List

namespace Processer

variable {x : Processer} {dead : TaskList}

def forget (x : Processer) (dead : TaskList) : Processer :=
  { x with
    runningTask_ := x.runningTask_.filter fun tk => tk ∉ dead
    nextTask_ := x.nextTask_.filter fun tk => tk ∉ dead }

theorem filter_hook (dead : TaskList) (hook : Option TaskPtr) :
    (hook.filter fun tk => tk ∉ dead) = hook ∨
      (hook.filter fun tk => tk ∉ dead) = none ∧ ∃ tk ∈ dead, hook = some tk := by
  cases hook with
  | none => exact .inl rfl
  | some tk =>
      by_cases hmem : tk ∈ dead
      · exact .inr ⟨by simp [hmem], tk, hmem, rfl⟩
      · exact .inl (by simp [hmem])

theorem pin_filter {q : TaskQueue} (hook : Option TaskPtr) (h : ∀ tk ∈ dead, tk ∉ q) :
    pin q (hook.filter fun tk => tk ∉ dead) = pin q hook := by
  rcases filter_hook dead hook with heq | ⟨heq, tk, hmem, rfl⟩
  · rw [heq]
  · rw [heq]
    exact (TaskQueue.erase_of_not_mem (h tk hmem)).symm

theorem push_filter {q l : TaskQueue} (hook : Option TaskPtr) (h : ∀ tk ∈ dead, tk ∉ q) :
    (if (pin q hook).2 then l.pushWithoutLock (hook.filter fun tk => tk ∉ dead).toList else l) =
      if (pin q hook).2 then l.pushWithoutLock hook.toList else l := by
  rcases filter_hook dead hook with heq | ⟨heq, tk, hmem, rfl⟩
  · rw [heq]
  · have hpin : (pin q (some tk)).2 = false :=
      congrArg Prod.snd (TaskQueue.erase_of_not_mem (h tk hmem))
    rw [hpin]
    rfl

theorem pin_subset {q : TaskQueue} {hook : Option TaskPtr} {tk : TaskPtr}
    (h : tk ∈ (pin q hook).1) : tk ∈ q :=
  pin_perm.mem_iff.mpr (List.mem_append_right _ h)

theorem filter_cons {hook : Option TaskPtr} {tk : TaskPtr}
    (h : (hook.filter fun tk => tk ∉ dead) ≠ some tk) :
    (hook.filter fun tk' => tk' ∉ tk :: dead) = hook.filter fun tk => tk ∉ dead := by
  cases hook with
  | none => rfl
  | some tk' =>
      by_cases hdead : tk' ∈ dead
      · simp [Option.filter_some, hdead]
      · have hne : tk' ≠ tk := by
          rintro rfl
          exact h (by simp [hdead])
        simp [Option.filter_some, hdead, hne]

theorem filter_eq_some {hook : Option TaskPtr} {tk : TaskPtr} :
    (hook.filter fun tk => tk ∉ dead) = some tk ↔ hook = some tk ∧ tk ∉ dead := by
  simp [Option.filter_eq_some_iff]

theorem forget_eq (hrunning : ∀ tk, x.runningTask_ = some tk → tk ∉ dead)
    (hnext : ∀ tk, x.nextTask_ = some tk → tk ∉ dead) : x.forget dead = x := by
  have hsame : ∀ hook : Option TaskPtr, (∀ tk, hook = some tk → tk ∉ dead) →
      (hook.filter fun tk => tk ∉ dead) = hook := by
    intro hook h
    rcases filter_hook dead hook with heq | ⟨-, tk, hmem, rfl⟩
    · exact heq
    · exact absurd hmem (h tk rfl)
  unfold forget
  rw [hsame _ hrunning, hsame _ hnext]

/-- Pointers to dead tasks make no difference to `Steal`. -/
theorem stealRunnable_forget (h : ∀ tk ∈ dead, tk ∉ x.runnableQueue_) (n size : Nat) :
    (x.forget dead).stealRunnable n size =
      ((x.stealRunnable n size).1.forget dead, (x.stealRunnable n size).2) := by
  have h' : ∀ tk ∈ dead, tk ∉ (pin x.runnableQueue_ x.runningTask_).1 :=
    fun tk hmem hq => h tk hmem (pin_subset hq)
  unfold stealRunnable forget
  simp only [pin_filter x.runningTask_ h, pin_filter x.nextTask_ h', push_filter x.runningTask_ h,
    push_filter x.nextTask_ h']

end Processer

namespace Scheduler

variable {s t : Scheduler} {out : Nat → Bool} {dead : TaskList} {p : Nat} {x : Processer}
  {tk : TaskPtr}

/-- The state without the dead tasks, when the Processers of `out` have left `Process`. -/
def forget (s : Scheduler) (out : Nat → Bool) (dead : TaskList) : Scheduler :=
  { s with
    processers_ := fun p =>
      if out p then (s.processers_ p).forget dead else s.processers_ p
    creating := dead.map (·, 0) ++ s.creating }

/-- The step that does in the state without the dead tasks what `e` does. -/
def forgetStep (n : Nat) : SchedulerStep → SchedulerStep
  | .addTask k => .addTask (n + k)
  | e => e

section Fields

@[simp] theorem runnableQueue_forget :
    ((s.forget out dead).processers_ p).runnableQueue_ = (s.processers_ p).runnableQueue_ := by
  unfold forget
  simp only
  split <;> rfl

@[simp] theorem newQueue_forget :
    ((s.forget out dead).processers_ p).newQueue_ = (s.processers_ p).newQueue_ := by
  unfold forget
  simp only
  split <;> rfl

@[simp] theorem pc_forget :
    ((s.forget out dead).processers_ p).pc = (s.processers_ p).pc := by
  unfold forget
  simp only
  split <;> rfl

@[simp] theorem active_forget :
    ((s.forget out dead).processers_ p).active_ = (s.processers_ p).active_ := by
  unfold forget
  simp only
  split <;> rfl

theorem processers_forget (hp : out p = false) :
    (s.forget out dead).processers_ p = s.processers_ p := by
  unfold forget
  simp [hp]

theorem processers_forget_out (hp : out p = true) :
    (s.forget out dead).processers_ p = (s.processers_ p).forget dead := by
  unfold forget
  simp [hp]

theorem linked_forget : (s.forget out dead).linked tk = s.linked tk := by
  have hsize : (s.forget out dead).size = s.size := rfl
  have hdispatcher : (s.forget out dead).dispatcher = s.dispatcher := rfl
  unfold linked
  simp only [runnableQueue_forget, newQueue_forget, pc_forget, hsize, hdispatcher]

theorem owns_forget {o : Option TaskPtr} : (s.forget out dead).owns p o = s.owns p o := by
  unfold owns
  simp only [runnableQueue_forget, linked_forget]

theorem forget_setProcesser : (s.setProcesser p x).forget out dead =
    (s.forget out dead).setProcesser p (if out p then x.forget dead else x) := by
  have hprocessers : (fun q => if out q then (Function.update s.processers_ p x q).forget dead
      else Function.update s.processers_ p x q) =
      Function.update (fun q => if out q then (s.processers_ q).forget dead else s.processers_ q) p
        (if out p then x.forget dead else x) := by
    ext1 q
    by_cases hq : q = p
    · rw [hq, Function.update_self, Function.update_self]
    · rw [Function.update_of_ne hq, Function.update_of_ne hq]
  exact congrArg (fun f => { s with
    processers_ := f
    creating := dead.map (·, 0) ++ s.creating }) hprocessers

theorem forget_setProcesser_in (hp : out p = false) : (s.setProcesser p x).forget out dead =
    (s.forget out dead).setProcesser p x := by
  rw [forget_setProcesser, hp]
  rfl

end Fields

section Process

theorem branch_forget (hp : out p = false) :
    (s.forget out dead).branch p tk = (s.branch p tk).forget out dead := by
  unfold branch
  rw [processers_forget hp]
  generalize s.processers_ p = x
  simp only [owns_forget]
  cases x.pc with
  | switched | block => exact (forget_setProcesser_in (s := s) hp).symm
  | runnable | doneNext | doneErase =>
      exact (forget_setProcesser_in (s := s.assert (s.owns p (some tk))) hp).symm
  | doneAdvance => exact (forget_setProcesser_in (s := s.add2FreeTaskList tk) hp).symm
  | front | addEmpty idle | addPop idle | addPush idle elements | frontAgain | waitLoop | loop
  | exec tk | suspending tk | suspended tk => rfl

theorem suspendErase_forget (hp : out p = false) :
    (s.forget out dead).suspendErase p tk = (s.suspendErase p tk).forget out dead := by
  unfold suspendErase
  rw [processers_forget hp]
  generalize s.processers_ p = x
  simp only [owns_forget]
  exact congrArg (fun u : Scheduler => { u with suspended := s.suspended ++ [tk] })
    (forget_setProcesser_in (s := s.assert _) hp).symm

theorem swapIn_forget (hp : out p = false) :
    (s.forget out dead).swapIn p tk = (s.swapIn p tk).forget out dead := by
  unfold swapIn
  rw [processers_forget hp]
  exact (forget_setProcesser_in (s := s.setTask tk _) hp).symm

theorem process_forget (hp : out p = false) :
    (s.forget out dead).process p = (s.process p).map (forget · out dead) := by
  unfold process
  rw [processers_forget hp]
  simp only [branch_forget hp, swapIn_forget hp, suspendErase_forget hp]
  generalize s.processers_ p = x
  cases x.pc with
  | front | addEmpty idle | addPop idle | addPush idle elements | frontAgain | waitLoop
  | suspended tk => exact congrArg some (forget_setProcesser_in (s := s) hp).symm
  | loop =>
      cases x.runningTask_ with
      | some tk => rfl
      | none => exact congrArg some (forget_setProcesser_in (s := s) hp).symm
  | exec tk => rfl
  | suspending tk => rfl
  | switched | block | runnable | doneNext | doneErase | doneAdvance =>
      cases x.runningTask_ with
      | some tk => rfl
      | none => rfl

theorem suspendBySelfIo_forget (hp : out p = false) :
    (s.forget out dead).suspendBySelfIo p tk = (s.suspendBySelfIo p tk).forget out dead := by
  unfold suspendBySelfIo
  rw [processers_forget hp]
  exact (forget_setProcesser_in (s := (s.assert _).setTask tk _) hp).symm

theorem finish_forget (hp : out p = false) :
    (s.forget out dead).finish p tk = (s.finish p tk).forget out dead := by
  unfold finish
  rw [processers_forget hp]
  exact (forget_setProcesser_in (s := s.setTask tk _) hp).symm

end Process

section Outside

theorem nextActive_forget (n idx : Nat) :
    (s.forget out dead).nextActive n idx = s.nextActive n idx := by
  have hsize : (s.forget out dead).size = s.size := rfl
  induction n generalizing idx with
  | zero =>
      unfold nextActive
      simp only [active_forget, hsize]
  | succ n ih =>
      unfold nextActive
      simp only [active_forget, hsize, ih]

theorem append_forget {n : Nat} {l : List (TaskPtr × Nat)} :
    { s.forget out dead with
      lastActive_ := n
      creating := (s.forget out dead).creating ++ l } =
      ({ s with lastActive_ := n, creating := s.creating ++ l } : Scheduler).forget out dead :=
  congrArg (fun l => { s.forget out dead with lastActive_ := n, creating := l })
    (List.append_assoc ..)

theorem addTask_forget : (s.forget out dead).addTask tk = (s.addTask tk).forget out dead := by
  have hsize : (s.forget out dead).size = s.size := rfl
  have hlast : (s.forget out dead).lastActive_ = s.lastActive_ := rfl
  have htask : (s.forget out dead).task = s.task := rfl
  unfold addTask
  simp only [nextActive_forget, active_forget, hsize, hlast, htask]
  cases (s.task tk).proc_ with
  | none => exact append_forget
  | some p =>
      simp only
      split
      · exact append_forget
      · exact append_forget

theorem createTask_forget (n : Int) :
    (s.forget out dead).createTask n = (s.createTask n).forget out dead := by
  have hfree : (s.forget out dead).free_task_map_ = s.free_task_map_ := rfl
  unfold createTask getFreeTaskList
  rw [hfree]
  cases s.free_task_map_.lowerBound n with
  | none => exact addTask_forget (s := (s.newTask n).1)
  | some itr =>
      exact addTask_forget
        (s := { s with free_task_map_ := s.free_task_map_.erase itr.id })

theorem pushNew_forget {l : TaskList} :
    (s.forget out dead).pushNew p l = (s.pushNew p l).forget out dead := by
  unfold pushNew
  rw [forget_setProcesser]
  congr 1
  by_cases hp : out p = true
  · rw [processers_forget_out hp, if_pos hp]
    rfl
  · rw [processers_forget (Bool.eq_false_of_not_eq_true hp), if_neg hp]

theorem wakeupBySelfIo_forget :
    (s.forget out dead).wakeupBySelfIo tk = (s.wakeupBySelfIo tk).forget out dead := by
  have htask : (s.forget out dead).task = s.task := rfl
  unfold wakeupBySelfIo
  rw [htask]
  cases (s.task tk).proc_ <;> rfl

theorem wakeupPush_forget {k : Nat} :
    (s.forget out dead).wakeupPush k tk p = (s.wakeupPush k tk p).forget out dead := by
  have hpush : ((s.forget out dead).assert !s.linked tk).setProcesser p
      { (s.forget out dead).processers_ p with
        runnableQueue_ :=
          ((s.forget out dead).processers_ p).runnableQueue_.pushWithoutLock [tk] } =
      ((s.assert !s.linked tk).setProcesser p
        { s.processers_ p with
          runnableQueue_ := (s.processers_ p).runnableQueue_.pushWithoutLock [tk] }).forget out
        dead := by
    rw [forget_setProcesser]
    congr 1
    by_cases hp : out p = true
    · rw [processers_forget_out hp, if_pos hp]
      rfl
    · rw [processers_forget (Bool.eq_false_of_not_eq_true hp), if_neg hp]
  unfold wakeupPush
  simp only [linked_forget]
  exact congrArg (fun u : Scheduler => { u with waking := s.waking.eraseIdx k }) hpush

end Outside

section Dispatcher

variable {a : Averaging} {n : Nat} {slist : TaskList}

theorem stealNew_forget : ((s.forget out dead).processers_ p).stealNew n =
    (if out p then ((s.processers_ p).stealNew n).1.forget dead else ((s.processers_ p).stealNew n).1,
      ((s.processers_ p).stealNew n).2) := by
  by_cases hp : out p = true
  · rw [processers_forget_out hp, if_pos hp]
    rfl
  · rw [processers_forget (Bool.eq_false_of_not_eq_true hp), if_neg hp]

theorem steal_forget : (s.forget out dead).steal a = (s.steal a).forget out dead := by
  have hsize : (s.forget out dead).size = s.size := rfl
  unfold steal
  rw [hsize]
  split
  · simp only
    split
    · simp only [stealNew_forget]
      rw [← forget_setProcesser]
      rfl
    · rfl
  · rfl

theorem not_linked_of_dead (h : ∀ i : Place, i.IsList → tk ∉ s.contents i) :
    s.linked tk = false := by
  rw [Bool.eq_false_iff]
  intro hlinked
  obtain ⟨i, hi, hmem⟩ := place_of_linked hlinked
  exact h i hi hmem

theorem owns_filter (hook : Option TaskPtr)
    (hdead : ∀ tk ∈ dead, ∀ i : Place, i.IsList → tk ∉ s.contents i) :
    s.owns p (hook.filter fun tk => tk ∉ dead) = s.owns p hook := by
  rcases Processer.filter_hook dead hook with heq | ⟨heq, tk, hmem, rfl⟩
  · rw [heq]
  · rw [heq, owns_of_not_linked (not_linked_of_dead (hdead tk hmem))]
    rfl

theorem stealRunnable_forget (hdead : ∀ tk ∈ dead, ∀ i : Place, i.IsList → tk ∉ s.contents i) :
    (s.forget out dead).stealRunnable a n slist = (s.stealRunnable a n slist).forget out dead := by
  have hqueue : ∀ tk ∈ dead, tk ∉ (s.processers_ a.i).runnableQueue_ :=
    fun tk hmem => hdead tk hmem (.processer a.i .runnable) nofun
  unfold stealRunnable
  simp only [owns_forget]
  by_cases hp : out a.i = true
  · rw [processers_forget_out hp]
    simp only [Processer.stealRunnable_forget hqueue]
    have howns : (s.owns a.i ((s.processers_ a.i).forget dead).runningTask_ &&
        s.owns a.i ((s.processers_ a.i).forget dead).nextTask_) =
        (s.owns a.i (s.processers_ a.i).runningTask_ && s.owns a.i (s.processers_ a.i).nextTask_) := by
      rw [← owns_filter (s.processers_ a.i).runningTask_ hdead,
        ← owns_filter (s.processers_ a.i).nextTask_ hdead]
      rfl
    have hset : (s.forget out dead).setProcesser a.i
          (((s.processers_ a.i).stealRunnable n slist.length).1.forget dead) =
        (s.setProcesser a.i ((s.processers_ a.i).stealRunnable n slist.length).1).forget out
          dead := by
      rw [forget_setProcesser, if_pos hp]
    rw [howns]
    exact congrArg (fun u : Scheduler => { u.assert (s.owns a.i (s.processers_ a.i).runningTask_ &&
        s.owns a.i (s.processers_ a.i).nextTask_) with
      dispatcher := .steal { a with
        i := a.i + 1
        tasks := a.tasks ++ (((s.processers_ a.i).stealRunnable n slist.length).2 ++ slist) } })
      hset
  · have hp := Bool.eq_false_of_not_eq_true hp
    rw [processers_forget hp]
    exact congrArg (fun u : Scheduler => { u.assert (s.owns a.i (s.processers_ a.i).runningTask_ &&
        s.owns a.i (s.processers_ a.i).nextTask_) with
      dispatcher := .steal { a with
        i := a.i + 1
        tasks := a.tasks ++ (((s.processers_ a.i).stealRunnable n slist.length).2 ++ slist) } })
      (forget_setProcesser_in hp).symm

theorem deal_forget : (s.forget out dead).deal a = (s.deal a).forget out dead := by
  have hsize : (s.forget out dead).size = s.size := rfl
  unfold deal
  rw [hsize]
  split
  · simp only
    split <;> rfl
  · rfl

theorem avgTotalTasks_forget
    (hdead : ∀ tk ∈ dead, ∀ i : Place, i.IsList → tk ∉ s.contents i) :
    (s.forget out dead).avgTotalTasks = s.avgTotalTasks.forget out dead := by
  have hsize : (s.forget out dead).size = s.size := rfl
  have hdispatcher : (s.forget out dead).dispatcher = s.dispatcher := rfl
  unfold avgTotalTasks
  rw [hdispatcher]
  cases s.dispatcher with
  | idle =>
      simp only [hsize]
      split <;> rfl
  | sizeRunnable cacheTaskCounts =>
      simp only [hsize, runnableQueue_forget]
      split <;> rfl
  | sizeNew cacheTaskCounts size =>
      simp only [newQueue_forget]
      rfl
  | steal a => exact steal_forget
  | stealRunnable a n slist => exact stealRunnable_forget hdead
  | deal a => exact deal_forget
  | addTask a slist =>
      exact congrArg (fun u : Scheduler => { u with dispatcher := .deal { a with i := a.i + 1 } })
        pushNew_forget
  | left tasks =>
      simp only
      split
      · rfl
      · exact congrArg (fun u : Scheduler => { u with dispatcher := .idle }) pushNew_forget

end Dispatcher

section Dead

variable {i : Place}

theorem mem_creating_of_dead (h : tk ∈ dead) :
    tk ∈ (s.forget out dead).contents (.shared .creating) := by
  show tk ∈ (dead.map (·, 0) ++ s.creating).map Prod.fst
  rw [List.map_append, List.mem_append]
  exact .inl (List.mem_map.mpr ⟨(tk, 0), List.mem_map_of_mem h, rfl⟩)

theorem not_dead (h : (s.forget out dead).Tidy) (hi : ∀ p, i = .processer p .finished → out p = false)
    (hmem : tk ∈ s.contents i) : tk ∉ dead := by
  intro hdead
  have hcreating : tk ∈ (s.forget out dead).contents (.shared .creating) :=
    mem_creating_of_dead hdead
  have hother : i ≠ .shared .creating → tk ∉ (s.forget out dead).contents i :=
    fun hne hthere => hne (h.place_unique hthere hcreating)
  cases i with
  | processer p q =>
      apply hother processer_ne_shared
      show tk ∈ ((s.forget out dead).processers_ p).held q
      cases q with
      | runnable => rwa [Processer.held, runnableQueue_forget]
      | new => rwa [Processer.held, newQueue_forget]
      | adding => rwa [Processer.held, pc_forget]
      | finished =>
          rw [processers_forget (hi p rfl)]
          exact hmem
  | shared g =>
      cases g with
      | creating =>
          have hnodup : ((dead.map (·, 0) ++ s.creating).map Prod.fst).Nodup :=
            h.nodup (.shared .creating)
          rw [List.map_append] at hnodup
          exact (List.nodup_append.mp hnodup).2.2 tk
            (List.mem_map.mpr ⟨(tk, 0), List.mem_map_of_mem hdead, rfl⟩) tk hmem rfl
      | suspended | waking | tasks | slist | free => exact hother (by decide) hmem

theorem not_dead_of_list (h : (s.forget out dead).Tidy) (hi : i.IsList)
    (hmem : tk ∈ s.contents i) : tk ∉ dead :=
  not_dead h (fun _ hp => absurd rfl (hp ▸ hi)) hmem

theorem forget_update (hrunning : ∀ tk, (s.processers_ p).runningTask_ = some tk → tk ∉ dead)
    (hnext : ∀ tk, (s.processers_ p).nextTask_ = some tk → tk ∉ dead) (hp : out p = false) :
    s.forget (Function.update out p true) dead = s.forget out dead := by
  have hprocessers : (fun q => if Function.update out p true q then (s.processers_ q).forget dead
      else s.processers_ q) =
      fun q => if out q then (s.processers_ q).forget dead else s.processers_ q := by
    ext1 q
    by_cases hq : q = p
    · subst hq
      rw [Function.update_self, hp, Processer.forget_eq hrunning hnext]
      rfl
    · rw [Function.update_of_ne hq]
  exact congrArg (fun f => { s with
    processers_ := f
    creating := dead.map (·, 0) ++ s.creating }) hprocessers

end Dead

section Step

def Inside (out : Nat → Bool) : SchedulerStep → Prop
  | .process p | .yield p | .suspendBySelfIo p | .runOn p | .finish p => out p = false
  | _ => True

theorem getElem?_creating {k : Nat} :
    (s.forget out dead).creating[dead.length + k]? = s.creating[k]? := by
  have hlength : (dead.map fun tk => (tk, 0)).length = dead.length := List.length_map _
  have hcreating : (s.forget out dead).creating = dead.map (·, 0) ++ s.creating := rfl
  rw [hcreating, ← hlength, List.getElem?_append_right (Nat.le_add_right _ _),
    Nat.add_sub_cancel_left]

theorem eraseIdx_creating {k : Nat} :
    (s.forget out dead).creating.eraseIdx (dead.length + k) =
      dead.map (·, 0) ++ s.creating.eraseIdx k := by
  have hlength : (dead.map fun tk => (tk, 0)).length = dead.length := List.length_map _
  have hcreating : (s.forget out dead).creating = dead.map (·, 0) ++ s.creating := rfl
  rw [hcreating, ← hlength, List.eraseIdx_append_of_length_le (Nat.le_add_right _ _),
    Nat.add_sub_cancel_left]

/-- A step makes no use of the dead tasks where the threads that have left `Process` make none. -/
theorem step_forget {e : SchedulerStep} (hs : s.step e = some t) (hin : Inside out e)
    (hdead : ∀ tk ∈ dead, ∀ i : Place, i.IsList → tk ∉ s.contents i) :
    (s.forget out dead).step (forgetStep dead.length e) = some (t.forget out dead) := by
  cases stepped hs with
  | newProcessThread hidle => exact if_pos hidle
  | createTask n => exact congrArg some (createTask_forget n)
  | @addTask k tk p hk =>
      unfold step forgetStep
      simp only [getElem?_creating, eraseIdx_creating, linked_forget, hk]
      exact congrArg (fun u : Scheduler => some { u with
        creating := dead.map (·, 0) ++ s.creating.eraseIdx k })
        (pushNew_forget (s := s.assert !s.linked tk))
  | @process p _ hp hs =>
      have hstep : (s.forget out dead).step (.process p) = (s.forget out dead).process p :=
        if_pos hp
      calc (s.forget out dead).step (.process p)
          = (s.process p).map (forget · out dead) := hstep.trans (process_forget hin)
        _ = some (t.forget out dead) := by rw [hs, Option.map_some]
  | yield hpc =>
      unfold step forgetStep
      simp only [pc_forget, hpc]
      rw [processers_forget hin]
      exact congrArg some (forget_setProcesser_in hin).symm
  | suspendBySelfIo hpc =>
      unfold step forgetStep
      simp only [pc_forget, hpc]
      exact congrArg some (suspendBySelfIo_forget hin)
  | @runOn p tk hpc hback =>
      have hstep : (s.forget out dead).step (.runOn p) =
          some ((s.forget out dead).setProcesser p
            { (s.forget out dead).processers_ p with pc := .exec tk }) := by
        unfold step
        simp only [pc_forget, hpc]
        exact if_pos hback
      rw [processers_forget hin] at hstep
      exact hstep.trans (congrArg some (forget_setProcesser_in hin).symm)
  | finish hpc =>
      unfold step forgetStep
      simp only [pc_forget, hpc]
      exact congrArg some (finish_forget hin)
  | @wakeupBySelfIo tk hmem =>
      have hstep : (s.forget out dead).step (.wakeupBySelfIo tk) =
          some ((s.forget out dead).wakeupBySelfIo tk) := if_pos hmem
      exact hstep.trans (congrArg some wakeupBySelfIo_forget)
  | wakeupPush hk =>
      have hwaking : (s.forget out dead).waking = s.waking := rfl
      unfold step forgetStep
      simp only [hwaking, hk]
      exact congrArg some wakeupPush_forget
  | avgTotalTasks => exact congrArg some (avgTotalTasks_forget hdead)

end Step

end Scheduler

end CppGo.Scheduling
