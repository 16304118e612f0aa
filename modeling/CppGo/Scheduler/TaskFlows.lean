import CppGo.Scheduler.Shutdown
import CppGo.Scheduler.SleepCalls

/-!
# Where a step takes the tasks of a list

A task of a queue or of a local list stays where it is, or goes to a list that the step fills,
or leaves its queue because it is suspended or has ended.
-/

namespace CppGo.Scheduling

open CppGo.Lib

open scoped List

namespace Scheduler

variable {s t : Scheduler} {p : Nat} {x : Processer} {tk : TaskPtr} {e : SchedulerStep}
  {i j : Place} {a : Averaging} {l slist : TaskList}

/-- The step may take a task of a list from one place to the other. -/
inductive Flows (s : Scheduler) : SchedulerStep → Place → Place → Prop
  | stays {e : SchedulerStep} {i : Place} : Flows s e i i
  | process {p : Nat} {a b : Hold} (hb : b = .runnable ∨ b = .adding) :
      Flows s (.process p) (.processer p a) (.processer p b)
  | shared {i : Place} {g : Shared} (hg : g = .tasks ∨ g = .slist) :
      Flows s .avgTotalTasks i (.shared g)
  | addTask {i : Place} {a : Averaging} {slist : TaskList}
      (hd : s.dispatcher = .addTask a slist) :
      Flows s .avgTotalTasks i (.processer a.i .new)
  | left {i : Place} {tasks : TaskList} (hd : s.dispatcher = .left tasks) (htasks : tasks ≠ []) :
      Flows s .avgTotalTasks i (.processer 0 .new)

def Keeps (s t : Scheduler) (e : SchedulerStep) (i : Place) (tk : TaskPtr) : Prop :=
  s.leaves e = some tk ∨ ∃ j, Flows s e i j ∧ tk ∈ t.contents j

theorem Keeps.stays (h : tk ∈ t.contents i) : s.Keeps t e i tk :=
  .inr ⟨i, .stays, h⟩

section Same

theorem mem_of_update (hproc : t.processers_ = Function.update s.processers_ p x)
    (hd : t.dispatcher = s.dispatcher)
    (hheld : ∀ q, i = .processer p q → tk ∈ (s.processers_ p).held q → tk ∈ x.held q)
    (hi : i.IsList) (hmem : tk ∈ s.contents i) : tk ∈ t.contents i := by
  cases i with
  | processer p' q =>
      show tk ∈ (t.processers_ p').held q
      rw [hproc]
      by_cases hp : p' = p
      · rw [hp] at hmem ⊢
        rw [Function.update_self]
        exact hheld q (by rw [hp]) hmem
      · rw [Function.update_of_ne hp]
        exact hmem
  | shared g =>
      rcases hi with rfl | rfl
      · show tk ∈ t.dispatcher.tasks
        rw [hd]
        exact hmem
      · show tk ∈ t.dispatcher.slist
        rw [hd]
        exact hmem

theorem mem_of_same (hproc : t.processers_ = s.processers_) (hd : t.dispatcher = s.dispatcher)
    (hi : i.IsList) (hmem : tk ∈ s.contents i) : tk ∈ t.contents i := by
  refine mem_of_update (p := 0) (x := s.processers_ 0) ?_ hd (fun _ _ => id) hi hmem
  rw [hproc, Function.update_eq_self]

/-- The queues of a Processer lose no task, outside `AddNewTasks`. -/
theorem mem_of_queues (hproc : t.processers_ = Function.update s.processers_ p x)
    (hd : t.dispatcher = s.dispatcher)
    (hqueue : (s.processers_ p).runnableQueue_ ⊆ x.runnableQueue_)
    (hnew : (s.processers_ p).newQueue_ ⊆ x.newQueue_)
    (helements : x.pc = (s.processers_ p).pc ∨ (s.processers_ p).pc.elements = [])
    (hi : i.IsList) (hmem : tk ∈ s.contents i) : tk ∈ t.contents i := by
  apply mem_of_update hproc hd ?_ hi hmem
  rintro q rfl hq
  cases q with
  | runnable => exact hqueue hq
  | new => exact hnew hq
  | adding =>
      change tk ∈ (s.processers_ p).pc.elements at hq
      rcases helements with hpc | hnil
      · show tk ∈ x.pc.elements
        rwa [hpc]
      · rw [hnil] at hq
        cases hq
  | finished => exact absurd rfl hi

end Same

section Process

theorem keeps_erase {tk' : TaskPtr} (hleaves : s.leaves e = some tk')
    (hproc : t.processers_ = Function.update s.processers_ p x) (hd : t.dispatcher = s.dispatcher)
    (hqueue : x.runnableQueue_ = ((s.processers_ p).runnableQueue_.eraseWithoutLock tk').1)
    (hnew : x.newQueue_ = (s.processers_ p).newQueue_)
    (helements : (s.processers_ p).pc.elements = []) (hi : i.IsList) (hmem : tk ∈ s.contents i) :
    s.Keeps t e i tk := by
  by_cases hne : tk = tk'
  · exact .inl (hne ▸ hleaves)
  · refine .stays (mem_of_update hproc hd ?_ hi hmem)
    rintro q rfl hq
    cases q with
    | runnable =>
        show tk ∈ x.runnableQueue_
        rw [hqueue]
        exact erase_mem_of_ne hq hne
    | new =>
        show tk ∈ x.newQueue_
        rwa [hnew]
    | adding =>
        change tk ∈ (s.processers_ p).pc.elements at hq
        rw [helements] at hq
        cases hq
    | finished => exact absurd rfl hi

theorem keeps_branch {tk' : TaskPtr} (hrun : (s.processers_ p).runningTask_ = some tk')
    (helements : (s.processers_ p).pc.elements = []) (hi : i.IsList) (hmem : tk ∈ s.contents i) :
    s.Keeps (s.branch p tk') (.process p) i tk := by
  unfold branch
  simp only
  split
  case h_5 hpc =>
    have hleaves : s.leaves (.process p) = some tk' := by
      unfold leaves
      simp only [hpc, hrun]
    exact keeps_erase hleaves rfl rfl rfl rfl helements hi hmem
  case h_7 => exact .stays hmem
  all_goals exact .stays (mem_of_queues (s := s) rfl rfl (List.Subset.refl _) (List.Subset.refl _)
    (.inr helements) hi hmem)

theorem keeps_addNewTasks {a b : Hold} (hb : b = .runnable ∨ b = .adding)
    (hproc : t.processers_ = Function.update s.processers_ p x) (hd : t.dispatcher = s.dispatcher)
    (hmoved : ∀ tk ∈ (s.processers_ p).held a, tk ∈ x.held b)
    (hheld : ∀ q, q ≠ a → q ≠ .finished → (s.processers_ p).held q ⊆ x.held q)
    (hi : i.IsList) (hmem : tk ∈ s.contents i) : s.Keeps t (.process p) i tk := by
  by_cases hia : i = .processer p a
  · subst hia
    refine .inr ⟨.processer p b, .process hb, ?_⟩
    show tk ∈ (t.processers_ p).held b
    rw [hproc, Function.update_self]
    exact hmoved tk hmem
  · refine .stays (mem_of_update hproc hd ?_ hi hmem)
    rintro q rfl hq
    exact hheld q (fun heq => hia (heq ▸ rfl)) hi hq

theorem keeps_process (hs : s.process p = some t) (hi : i.IsList) (hmem : tk ∈ s.contents i) :
    s.Keeps t (.process p) i tk := by
  have hstay : ∀ {u : Scheduler} {x : Processer},
      u.processers_ = Function.update s.processers_ p x → u.dispatcher = s.dispatcher →
      x.runnableQueue_ = (s.processers_ p).runnableQueue_ →
      x.newQueue_ = (s.processers_ p).newQueue_ → (s.processers_ p).pc.elements = [] →
      s.Keeps u (.process p) i tk := by
    intro u x hproc hd hqueue hnew helements
    refine .stays (mem_of_queues hproc hd ?_ ?_ (.inr helements) hi hmem)
    · rw [hqueue]
      exact List.Subset.refl _
    · rw [hnew]
      exact List.Subset.refl _
  cases processed hs with
  | front hpc | addEmpty hpc | frontAgain hpc | waitLoop hpc | swapIn hpc | loopEnd hpc
  | suspended hpc => exact hstay rfl rfl rfl rfl (by rw [hpc]; rfl)
  | addPop hpc =>
      refine keeps_addNewTasks (a := .new) (b := .adding) (.inr rfl) rfl rfl (fun _ => id) ?_ hi hmem
      intro q hq hfinished
      cases q with
      | runnable => exact List.Subset.refl _
      | new => exact absurd rfl hq
      | adding =>
          have hnil : (s.processers_ p).held .adding = [] := by
            rw [Processer.held, hpc]
            rfl
          rw [hnil]
          exact List.nil_subset _
      | finished => exact absurd rfl hfinished
  | addPush hpc =>
      refine keeps_addNewTasks (a := .adding) (b := .runnable) (.inl rfl) rfl rfl ?_ ?_ hi hmem
      · intro tk htk
        rw [Processer.held, hpc] at htk
        exact List.mem_append_right _ htk
      · intro q hq hfinished
        cases q with
        | runnable => exact List.subset_append_left _ _
        | new => exact List.Subset.refl _
        | adding => exact absurd rfl hq
        | finished => exact absurd rfl hfinished
  | @suspendErase tk' hpc =>
      have hleaves : s.leaves (.process p) = some tk' := by
        unfold leaves
        simp only [hpc]
      exact keeps_erase hleaves rfl rfl rfl rfl (by rw [hpc]; rfl) hi hmem
  | branch hout hrun => exact keeps_branch hrun hout.elements hi hmem
  | unpicked => exact .stays hmem

end Process

section Dispatcher

def Carried (s : Scheduler) (tk : TaskPtr) : Prop :=
  tk ∈ s.dispatcher.tasks ∨ tk ∈ s.dispatcher.slist

theorem Carried.keeps (h : t.Carried tk) : s.Keeps t .avgTotalTasks i tk := by
  rcases h with h | h
  · exact .inr ⟨.shared .tasks, .shared (.inl rfl), h⟩
  · exact .inr ⟨.shared .slist, .shared (.inr rfl), h⟩

theorem carried_of_mem {g : Shared} (hg : g = .tasks ∨ g = .slist) (hmem : tk ∈ s.shared g) :
    s.Carried tk := by
  rcases hg with rfl | rfl
  · exact .inl hmem
  · exact .inr hmem

theorem keeps_take (hproc : t.processers_ = Function.update s.processers_ p x)
    (hheld : ∀ q, tk ∈ (s.processers_ p).held q → tk ∈ x.held q ∨ t.Carried tk)
    (hcarried : s.Carried tk → t.Carried tk) (hi : i.IsList) (hmem : tk ∈ s.contents i) :
    s.Keeps t .avgTotalTasks i tk := by
  cases i with
  | shared g => exact (hcarried (carried_of_mem hi hmem)).keeps
  | processer p' q =>
      by_cases hp : p' = p
      · rw [hp] at hmem ⊢
        rcases hheld q hmem with hstay | htaken
        · apply Keeps.stays
          show tk ∈ (t.processers_ p).held q
          rwa [hproc, Function.update_self]
        · exact htaken.keeps
      · apply Keeps.stays
        show tk ∈ (t.processers_ p').held q
        rw [hproc, Function.update_of_ne hp]
        exact hmem

theorem keeps_carried (hproc : t.processers_ = s.processers_) (hcarried : s.Carried tk → t.Carried tk)
    (hi : i.IsList) (hmem : tk ∈ s.contents i) : s.Keeps t .avgTotalTasks i tk := by
  refine keeps_take (p := 0) (x := s.processers_ 0) ?_ (fun _ => .inl) hcarried hi hmem
  rw [hproc, Function.update_eq_self]

theorem keeps_give (hflow : Flows s .avgTotalTasks i (.processer p .new))
    (hproc : t.processers_ = (s.pushNew p l).processers_)
    (hcarried : s.Carried tk → tk ∈ l ∨ t.Carried tk) (hi : i.IsList) (hmem : tk ∈ s.contents i) :
    s.Keeps t .avgTotalTasks i tk := by
  cases i with
  | shared g =>
      rcases hcarried (carried_of_mem hi hmem) with hgiven | hstay
      · refine .inr ⟨_, hflow, ?_⟩
        show tk ∈ (t.processers_ p).newQueue_
        rw [hproc, pushNew, processers_setProcesser]
        exact List.mem_append_right _ hgiven
      · exact hstay.keeps
  | processer p' q =>
      apply Keeps.stays
      have hstay : tk ∈ (s.pushNew p l).contents (.processer p' q) :=
        mem_of_queues (s := s) rfl rfl (List.Subset.refl _) (List.subset_append_left _ _) (.inl rfl)
          hi hmem
      show tk ∈ (t.processers_ p').held q
      rw [hproc]
      exact hstay

theorem not_carried_of_nil (htasks : s.dispatcher.tasks = []) (hslist : s.dispatcher.slist = []) :
    ¬ s.Carried tk := by
  rintro (h | h)
  · rw [htasks] at h
    cases h
  · rw [hslist] at h
    cases h

theorem keeps_steal (hd : s.dispatcher = .steal a) (hi : i.IsList) (hmem : tk ∈ s.contents i) :
    s.Keeps (s.steal a) .avgTotalTasks i tk := by
  unfold steal
  split
  · simp only
    split
    · have hspec := ((s.processers_ a.i).stealNew_spec (a.cacheTaskCounts.getD a.i 0 - a.avg)).1
      refine keeps_take (s := s) (p := a.i) rfl ?_ ?_ hi hmem
      · intro q hq
        cases q with
        | runnable | adding | finished => exact .inl hq
        | new =>
            rcases List.mem_append.mp (hspec.mem_iff.mp hq) with htaken | hstay
            · right
              unfold Carried
              simp only
              split
              · exact .inl (List.mem_append_right _ htaken)
              · exact .inr htaken
            · exact .inl hstay
      · unfold Carried
        rw [hd]
        rintro (h | h)
        · simp only
          split
          · exact .inl (List.mem_append_left _ h)
          · exact .inl h
        · cases h
    · exact keeps_carried rfl (by unfold Carried; rw [hd]; exact id) hi hmem
  · exact keeps_carried rfl (by unfold Carried; rw [hd]; exact id) hi hmem

theorem keeps_stealRunnable {n : Nat} (hd : s.dispatcher = .stealRunnable a n slist)
    (hi : i.IsList) (hmem : tk ∈ s.contents i) :
    s.Keeps (s.stealRunnable a n slist) .avgTotalTasks i tk := by
  have hspec := ((s.processers_ a.i).stealRunnable_spec n slist.length).perm
  refine keeps_take (s := s) (p := a.i) rfl ?_ ?_ hi hmem
  · intro q hq
    cases q with
    | new | adding | finished => exact .inl hq
    | runnable =>
        rcases List.mem_append.mp (hspec.mem_iff.mp hq) with htaken | hstay
        · exact .inr (.inl (List.mem_append_right _ (List.mem_append_left _ htaken)))
        · exact .inl hstay
  · unfold Carried
    rw [hd]
    rintro (h | h)
    · exact .inl (List.mem_append_left _ h)
    · exact .inl (List.mem_append_right _ (List.mem_append_right _ h))

theorem keeps_deal (hd : s.dispatcher = .deal a) (hi : i.IsList) (hmem : tk ∈ s.contents i) :
    s.Keeps (s.deal a) .avgTotalTasks i tk := by
  have hcarried : s.Carried tk → tk ∈ a.tasks := by
    unfold Carried
    rw [hd]
    rintro (h | h)
    · exact h
    · cases h
  unfold deal
  split
  · simp only
    split
    · refine keeps_carried rfl ?_ hi hmem
      intro h
      have hcut := hcarried h
      rw [← a.tasks.cut_append (a.avg - a.cacheTaskCounts.getD a.i 0), List.mem_append] at hcut
      unfold Carried
      simp only
      split
      · rename_i hempty
        rw [List.isEmpty_iff.mp hempty] at hcut
        exact .inl (hcut.resolve_left List.not_mem_nil)
      · exact hcut.symm
    · exact keeps_carried rfl (fun h => .inl (hcarried h)) hi hmem
  · exact keeps_carried rfl (fun h => .inl (hcarried h)) hi hmem

theorem keeps_avgTotalTasks (hi : i.IsList) (hmem : tk ∈ s.contents i) :
    s.Keeps s.avgTotalTasks .avgTotalTasks i tk := by
  unfold avgTotalTasks
  have hnone : s.dispatcher.tasks = [] → s.dispatcher.slist = [] → ∀ {P : Prop}, s.Carried tk → P :=
    fun htasks hslist _ h => absurd h (not_carried_of_nil htasks hslist)
  split
  case h_1 hd =>
    split
    · exact .stays hmem
    · exact keeps_carried rfl (hnone (by rw [hd]; rfl) (by rw [hd]; rfl)) hi hmem
  case h_2 hd =>
    simp only
    split
    all_goals exact keeps_carried rfl (hnone (by rw [hd]; rfl) (by rw [hd]; rfl)) hi hmem
  case h_3 hd => exact keeps_carried rfl (hnone (by rw [hd]; rfl) (by rw [hd]; rfl)) hi hmem
  case h_4 hd => exact keeps_steal hd hi hmem
  case h_5 hd => exact keeps_stealRunnable hd hi hmem
  case h_6 hd => exact keeps_deal hd hi hmem
  case h_7 a slist hd =>
    refine keeps_give (.addTask hd) rfl ?_ hi hmem
    unfold Carried
    rw [hd]
    rintro (h | h)
    · exact .inr (.inl h)
    · exact .inl h
  case h_8 tasks hd =>
    have hcarried : s.Carried tk → tk ∈ tasks := by
      unfold Carried
      rw [hd]
      rintro (h | h)
      · exact h
      · cases h
    split
    · rename_i hempty
      refine keeps_carried rfl (fun h => ?_) hi hmem
      have hin := hcarried h
      rw [List.isEmpty_iff.mp hempty] at hin
      cases hin
    · rename_i hempty
      refine keeps_give (.left hd ?_) rfl (fun h => .inl (hcarried h)) hi hmem
      rintro rfl
      exact hempty rfl

end Dispatcher

section Frames

theorem createTask_dispatcher (n : Int) :
    (s.createTask n).dispatcher = s.dispatcher ∧ (s.createTask n).size = s.size := by
  have hcreated := s.created n
  generalize s.createTask n = t at *
  cases hcreated <;> exact ⟨rfl, rfl⟩

theorem wakeupBySelfIo_dispatcher :
    (s.wakeupBySelfIo tk).dispatcher = s.dispatcher ∧ (s.wakeupBySelfIo tk).size = s.size := by
  unfold wakeupBySelfIo
  split <;> exact ⟨rfl, rfl⟩

theorem avgTotalTasks_size : s.avgTotalTasks.size = s.size := by
  unfold avgTotalTasks
  split
  case h_4 =>
    unfold steal
    split
    · simp only
      split <;> rfl
    · rfl
  case h_6 =>
    unfold deal
    split
    · simp only
      split <;> rfl
    · rfl
  case h_1 | h_8 => split <;> rfl
  case h_2 =>
    simp only
    split <;> rfl
  all_goals rfl

/-- Only `AvgTotalTasks` moves the dispatcher on, and only `NewProcessThread` adds a Processer. -/
theorem step_dispatcher (hs : s.step e = some t) :
    (e ≠ .avgTotalTasks → t.dispatcher = s.dispatcher) ∧
      (e ≠ .newProcessThread → t.size = s.size) := by
  cases stepped hs with
  | newProcessThread => exact ⟨fun _ => rfl, fun h => absurd rfl h⟩
  | createTask n =>
      exact ⟨fun _ => (createTask_dispatcher n).1, fun _ => (createTask_dispatcher n).2⟩
  | process _ hs =>
      have hlocal := local_process hs
      exact ⟨fun _ => hlocal.dispatcher, fun _ => hlocal.size⟩
  | addTask | yield | suspendBySelfIo | runOn | finish | wakeupPush =>
      exact ⟨fun _ => rfl, fun _ => rfl⟩
  | wakeupBySelfIo =>
      exact ⟨fun _ => wakeupBySelfIo_dispatcher.1, fun _ => wakeupBySelfIo_dispatcher.2⟩
  | avgTotalTasks => exact ⟨fun h => absurd rfl h, fun _ => avgTotalTasks_size⟩

end Frames

section Step

theorem keeps_step (hs : s.step e = some t) (hi : i.IsList) (hmem : tk ∈ s.contents i) :
    s.Keeps t e i tk := by
  cases stepped hs with
  | newProcessThread => exact .stays hmem
  | createTask n =>
      exact .stays (mem_of_same (createTask_frame n).1 (createTask_dispatcher n).1 hi hmem)
  | addTask =>
      exact .stays (mem_of_queues (s := s) rfl rfl (List.Subset.refl _)
        (List.subset_append_left _ _) (.inl rfl) hi hmem)
  | process _ hs => exact keeps_process hs hi hmem
  | yield hpc | suspendBySelfIo hpc | runOn hpc | finish hpc =>
      exact .stays (mem_of_queues (s := s) rfl rfl (List.Subset.refl _) (List.Subset.refl _)
        (.inr (by rw [hpc]; rfl)) hi hmem)
  | wakeupBySelfIo =>
      exact .stays (mem_of_same processers_wakeupBySelfIo wakeupBySelfIo_dispatcher.1 hi hmem)
  | wakeupPush =>
      exact .stays (mem_of_queues (s := s) rfl rfl (List.subset_append_left _ _)
        (List.Subset.refl _) (.inl rfl) hi hmem)
  | avgTotalTasks => exact keeps_avgTotalTasks hi hmem

end Step

end Scheduler

end CppGo.Scheduling
