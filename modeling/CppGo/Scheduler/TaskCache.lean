import CppGo.Scheduler.Conservation

/-!
# The cache of a scheduler

What `free_task_map_` knows of its tasks, and which of them `CreateTask` uses again.
-/

namespace CppGo.Scheduling

open CppGo.Lib

open scoped List

namespace Scheduler

variable {s t : Scheduler} {p : Nat} {tk : TaskPtr} {e : SchedulerStep}

/-- A task in `free_task_map_` has its stack size as its key, and `Reset` has made it
runnable, without a Processer. -/
def Cached (s : Scheduler) : Prop :=
  ∀ n ∈ s.free_task_map_.nodes, n.key = (s.task n.value).stack_size_ ∧
    (s.task n.value).state_ = .runnable ∧ (s.task n.value).proc_ = none

theorem cached_make : make.Cached :=
  fun _ hn => absurd hn List.not_mem_nil

/-! ## The steps -/

section Steps

theorem Cached.of_frame (h : s.Cached) (hfree : t.free_task_map_.nodes ⊆ s.free_task_map_.nodes)
    (htask : ∀ tk ∈ s.shared .free, t.task tk = s.task tk) : t.Cached := by
  intro n hn
  have hn := hfree hn
  rw [htask n.value (List.mem_map_of_mem hn)]
  exact h n hn

theorem Coherent.not_free {i : Place} (h : s.Coherent) (hmem : tk ∈ s.contents i)
    (hi : i ≠ .shared .free) : tk ∉ s.shared .free :=
  h.tidy.not_mem hmem hi

theorem Cached.setTask {i : Place} {r : Task} (h : s.Cached) (hc : s.Coherent)
    (hmem : tk ∈ s.contents i) (hi : i ≠ .shared .free) : (s.setTask tk r).Cached := by
  refine h.of_frame (fun _ hn => hn) ?_
  intro tk' htk'
  apply Function.update_of_ne
  rintro rfl
  exact hc.not_free hmem hi htk'

theorem Cached.same (h : s.Cached) (hfree : t.free_task_map_ = s.free_task_map_)
    (htask : t.task = s.task) : t.Cached := by
  apply h.of_frame
  · rw [hfree]
    exact List.Subset.refl _
  · intro tk _
    rw [htask]

theorem Cached.createTask (h : s.Cached) (hc : s.Coherent) (n : Int) :
    (s.createTask n).Cached := by
  have hcreated := s.created n
  generalize s.createTask n = t at *
  cases hcreated with
  | reused hitr p m =>
      apply h.of_frame
      · exact fun k hk => (Multimap.mem_erase.mp hk).1
      · exact fun _ _ => rfl
  | new hnone p m =>
      refine h.of_frame (fun _ hn => hn) ?_
      intro tk htk
      apply Function.update_of_ne
      have hlt := (hc.tidy.mem_iff tk).mpr ⟨.shared .free, htk⟩
      exact Nat.ne_of_lt hlt

theorem Cached.add2FreeTaskList {i : Place} (h : s.Cached) (hc : s.Coherent)
    (hmem : tk ∈ s.contents i) (hi : i ≠ .shared .free) : (s.add2FreeTaskList tk).Cached := by
  have hself : (s.add2FreeTaskList tk).task tk =
      { s.task tk with state_ := .runnable, proc_ := none } := Function.update_self ..
  intro n hn
  rcases Multimap.mem_insert.mp hn with rfl | hn
  · rw [hself]
    exact ⟨rfl, rfl, rfl⟩
  · have hset : (s.setTask tk { s.task tk with state_ := .runnable, proc_ := none }).Cached :=
      h.setTask hc hmem hi
    exact hset n hn

theorem Cached.branch (h : s.Cached) (hc : s.Coherent)
    (hrun : (s.processers_ p).runningTask_ = some tk) : (s.branch p tk).Cached := by
  unfold Scheduler.branch
  simp only
  split
  case h_6 hpc =>
    have hmem : tk ∈ s.contents (.processer p .finished) := by
      show tk ∈ (s.processers_ p).held .finished
      rw [Processer.held, if_pos hpc, hrun]
      exact List.mem_singleton_self tk
    exact (h.add2FreeTaskList hc hmem processer_ne_shared).same rfl rfl
  all_goals exact h.same rfl rfl

theorem Cached.process (h : s.Cached) (hc : s.Coherent) (hs : s.process p = some t) :
    t.Cached := by
  cases processed hs with
  | @swapIn tk hpc hrun =>
      have hmem : tk ∈ s.contents (.processer p .runnable) := hc.picked hpc hrun
      have hset : (s.setTask tk { s.task tk with state_ := .runnable, proc_ := some p }).Cached :=
        h.setTask hc hmem processer_ne_shared
      exact hset.same rfl rfl
  | branch _ hrun => exact h.branch hc hrun
  | front | addEmpty | addPop | addPush | frontAgain | waitLoop | loopEnd | suspendErase
  | suspended | unpicked => exact h.same rfl rfl

theorem Cached.avgTotalTasks (h : s.Cached) : s.avgTotalTasks.Cached := by
  unfold Scheduler.avgTotalTasks
  split
  case h_1 => split <;> exact h.same rfl rfl
  case h_2 =>
    simp only
    split <;> exact h.same rfl rfl
  case h_4 =>
    unfold Scheduler.steal
    split
    · simp only
      split <;> exact h.same rfl rfl
    · exact h.same rfl rfl
  case h_6 =>
    unfold Scheduler.deal
    split
    · simp only
      split <;> exact h.same rfl rfl
    · exact h.same rfl rfl
  case h_8 =>
    split <;> exact h.same rfl rfl
  all_goals exact h.same rfl rfl

theorem Cached.step (h : s.Cached) (hc : s.Coherent) (hs : s.step e = some t) : t.Cached := by
  cases stepped hs with
  | createTask n => exact h.createTask hc n
  | process _ hs => exact h.process hc hs
  | @suspendBySelfIo p tk hpc =>
      have hmem : tk ∈ s.contents (.processer p .runnable) := (hc.exec hpc).2.1
      have hset : (s.setTask tk { s.task tk with state_ := .block }).Cached :=
        h.setTask hc hmem processer_ne_shared
      exact hset.same rfl rfl
  | @finish p tk hpc =>
      have hmem : tk ∈ s.contents (.processer p .runnable) := (hc.exec hpc).2.1
      have hset : (s.setTask tk { s.task tk with state_ := .done }).Cached :=
        h.setTask hc hmem processer_ne_shared
      exact hset.same rfl rfl
  | @wakeupBySelfIo tk hmem =>
      obtain ⟨-, p, hhome⟩ := hc.suspended tk hmem
      rw [wakeupBySelfIo_eq hhome]
      have hset : (s.setTask tk { s.task tk with state_ := .runnable }).Cached :=
        h.setTask hc (i := .shared .suspended) hmem (by decide)
      exact hset.same rfl rfl
  | avgTotalTasks => exact h.avgTotalTasks
  | newProcessThread | addTask | yield | runOn | wakeupPush => exact h.same rfl rfl

end Steps

/-! ## `CreateTask` -/

section Reuse

variable {n : Int}

/-- The task is one of the free tasks with the smallest stack of at least `n`. -/
structure BestFit (s : Scheduler) (n : Int) (tk : TaskPtr) : Prop where
  free : tk ∈ s.free_task_map_.values
  fits : n ≤ (s.task tk).stack_size_
  least : ∀ tk' ∈ s.free_task_map_.values, n ≤ (s.task tk').stack_size_ →
    (s.task tk).stack_size_ ≤ (s.task tk').stack_size_

structure Fresh (s : Scheduler) (tk : TaskPtr) : Prop where
  state : (s.task tk).state_ = .runnable
  home : (s.task tk).proc_ = none
  links : s.linked tk = false

/-- `CreateTask` takes a task that fits best out of the cache, and allocates one exactly if
none fits. -/
structure Reuses (s : Scheduler) (n : Int) : Prop where
  reuse : (∃ tk ∈ s.free_task_map_.values, n ≤ (s.task tk).stack_size_) → ∃ tk p,
    s.BestFit n tk ∧ (s.createTask n).Fresh tk ∧
      (s.createTask n).creating = s.creating ++ [(tk, p)] ∧
      s.free_task_map_.values ~ tk :: (s.createTask n).free_task_map_.values ∧
      (s.createTask n).allocated = s.allocated
  allocate : (∀ tk ∈ s.free_task_map_.values, (s.task tk).stack_size_ < n) → ∃ p,
    (s.createTask n).creating = s.creating ++ [(s.allocated, p)] ∧
      (s.createTask n).free_task_map_ = s.free_task_map_ ∧
      (s.createTask n).allocated = s.allocated + 1

theorem Cached.stack_size (h : s.Cached) (hmem : tk ∈ s.free_task_map_.values) :
    ∃ k ∈ s.free_task_map_.nodes, k.value = tk ∧ k.key = (s.task tk).stack_size_ := by
  obtain ⟨k, hk, rfl⟩ := List.mem_map.mp hmem
  exact ⟨k, hk, rfl, (h k hk).1⟩

theorem Cached.bestFit {itr : Node Int TaskPtr} (h : s.Cached)
    (hitr : s.free_task_map_.lowerBound n = some itr) : s.BestFit n itr.value := by
  have hmem := Multimap.mem_of_lowerBound hitr
  obtain ⟨hle, hleast⟩ := Multimap.lowerBound_le hitr
  have hkey := (h itr hmem).1
  refine ⟨List.mem_map_of_mem hmem, hkey ▸ hle, fun tk htk hfits => ?_⟩
  obtain ⟨k, hk, -, hsize⟩ := h.stack_size htk
  rw [← hsize] at hfits ⊢
  exact hkey ▸ hleast k hk hfits

theorem Cached.reuses (h : s.Cached) (hc : s.Coherent) : s.Reuses n := by
  have hcoherent := hc.createTask n
  have hcreated := s.created n
  constructor
  · rintro ⟨tk, htk, hfits⟩
    generalize s.createTask n = t at *
    cases hcreated with
    | @reused itr hitr p m =>
        have hmem := Multimap.mem_of_lowerBound hitr
        have hlinks := hcoherent.tidy.not_linked (i := .shared .creating)
          (List.mem_map.mpr ⟨(itr.value, p), List.mem_append_right _ List.mem_cons_self, rfl⟩)
          (by simp [Place.IsList])
        obtain ⟨-, hstate, hhome⟩ := h itr hmem
        exact ⟨itr.value, p, h.bestFit hitr, ⟨hstate, hhome, hlinks⟩, rfl,
          Multimap.values_erase hmem, rfl⟩
    | new hnone =>
        obtain ⟨k, hk, -, hsize⟩ := h.stack_size htk
        rw [← hsize] at hfits
        exact absurd (Multimap.lt_of_lowerBound hnone hk) (not_lt.mpr hfits)
  · intro hsmall
    generalize s.createTask n = t at *
    cases hcreated with
    | @reused itr hitr =>
        have hfit := h.bestFit hitr
        exact absurd (hsmall itr.value hfit.free) (not_lt.mpr hfit.fits)
    | new hnone p m => exact ⟨p, rfl, rfl, rfl⟩

end Reuse

end Scheduler

end CppGo.Scheduling
