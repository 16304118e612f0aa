import CppGo.Scheduler.Coherence

/-!
# The steps of other threads

`CreateTask`, `WakeupBySelfIO` and `AvgTotalTasks` change the queues of a Processer whose
thread is anywhere in `Process`.
-/

namespace CppGo.Scheduling

open CppGo.Lib

open scoped List

namespace Scheduler

variable {s t : Scheduler} {p k : Nat} {tk : TaskPtr} {l : TaskList}

theorem perm_eraseIdx {α : Type*} {l : List α} {k : Nat} {a : α} (h : l[k]? = some a) :
    l ~ a :: l.eraseIdx k := by
  obtain ⟨hk, rfl⟩ := List.getElem?_eq_some_iff.mp h
  exact (List.getElem_cons_eraseIdx_perm hk).symm

theorem Touches.none (hproc : t.processers_ = s.processers_) (halloc : t.allocated = s.allocated) :
    Touches s t 0 (s.processers_ 0) :=
  ⟨by rw [hproc, Function.update_eq_self], halloc⟩

theorem Coherent.outside (h : s.Coherent) (hproc : t.processers_ = s.processers_)
    (htask : ∀ tk < s.allocated, t.task tk = s.task tk) (hsuspended : t.suspended = s.suspended)
    (hwaking : t.waking = s.waking) (hsound : t.fault = false) (htidy : t.Tidy) : t.Coherent := by
  refine h.aside (p := 0) (x := s.processers_ 0) ?_ rfl rfl rfl (fun _ _ => id) htask hsuspended
    hwaking hsound htidy
  rw [hproc, Function.update_eq_self]

theorem Tidy.pass {a b : Shared} (h : s.Tidy) (hab : a ≠ b)
    (hproc : t.processers_ = s.processers_) (halloc : t.allocated = s.allocated)
    (ha : s.shared a ~ l ++ t.shared a) (hb : t.shared b ~ l ++ s.shared b)
    (hother : ∀ g, g ≠ a → g ≠ b → t.shared g ~ s.shared g) : t.Tidy := by
  refine h.move (.none hproc halloc) (i := .shared a) (j := .shared b) (l := l) ?_ ha hb
    (fun _ _ _ => .refl _) ?_
  · intro heq
    injection heq with heq
    exact hab heq
  · intro g hga hgb
    exact hother g (fun heq => hga (heq ▸ rfl)) (fun heq => hgb (heq ▸ rfl))

section Create

theorem Coherent.reuse {n : Nat} {itr : Node Int TaskPtr} (h : s.Coherent)
    (hitr : itr ∈ s.free_task_map_.nodes) :
    { s with
      free_task_map_ := s.free_task_map_.erase itr.id
      lastActive_ := n
      creating := s.creating ++ [(itr.value, p)] }.Coherent := by
  refine h.outside rfl (fun _ _ => rfl) rfl rfl h.sound ?_
  refine h.tidy.pass (a := .free) (b := .creating) (l := [itr.value]) (by decide) rfl rfl ?_ ?_ ?_
  · exact Multimap.values_erase hitr
  · simp only [shared, List.map_append]
    exact List.perm_append_comm
  · intro g hfree hcreating
    cases g with
    | free => exact absurd rfl hfree
    | creating => exact absurd rfl hcreating
    | suspended | waking | tasks | slist => exact .refl _

theorem Coherent.new {n : Nat} {r : Task} (h : s.Coherent) :
    { s with
      task := Function.update s.task s.allocated r
      allocated := s.allocated + 1
      lastActive_ := n
      creating := s.creating ++ [(s.allocated, p)] }.Coherent := by
  refine h.outside rfl ?_ rfl rfl h.sound ?_
  · intro tk htk
    exact Function.update_of_ne (Nat.ne_of_lt htk) _ _
  · refine Placed.add h.tidy (x := s.allocated) (j := .shared .creating) (Nat.lt_irrefl _) ?_ ?_ ?_
    · intro y
      show y < s.allocated + 1 ↔ _
      rw [Nat.lt_succ_iff_lt_or_eq, or_comm]
    · simp only [contents, shared, List.map_append]
      exact List.perm_append_comm
    · intro i hi
      cases i with
      | processer p' q => exact .refl _
      | shared g =>
          cases g with
          | creating => exact absurd rfl hi
          | suspended | waking | tasks | slist | free => exact .refl _

theorem Coherent.createTask (h : s.Coherent) (n : Int) : (s.createTask n).Coherent := by
  have hcreated := s.created n
  generalize s.createTask n = t at *
  cases hcreated with
  | reused hitr p m => exact h.reuse (Multimap.mem_of_lowerBound hitr)
  | new hnone p m => exact h.new

theorem Coherent.pushNew {a : Shared} (h : s.Coherent)
    (hproc : t.processers_ = (s.pushNew p l).processers_) (halloc : t.allocated = s.allocated)
    (htask : t.task = s.task) (hsuspended : t.suspended = s.suspended)
    (hwaking : t.waking = s.waking) (hsound : t.fault = s.fault)
    (ha : s.shared a ~ l ++ t.shared a) (hother : ∀ g, g ≠ a → t.shared g ~ s.shared g) :
    t.Coherent := by
  have ht : Touches s t p
      { s.processers_ p with newQueue_ := (s.processers_ p).newQueue_ ++ l } := ⟨hproc, halloc⟩
  apply h.aside hproc rfl rfl rfl (fun _ _ => id) (fun tk _ => by rw [htask]) hsuspended hwaking
    (hsound.trans h.sound)
  refine h.tidy.move ht (i := .shared a) (j := .processer p .new) (l := l)
    processer_ne_shared.symm ha ?_ ?_ ?_
  · rw [ht.held]
    exact List.perm_append_comm
  · intro q _ hq
    cases q with
    | new => exact absurd rfl hq
    | runnable | adding | finished => exact .refl _
  · intro g hg _
    exact hother g fun heq => hg (heq ▸ rfl)

theorem Coherent.addTask (h : s.Coherent) (hk : s.creating[k]? = some (tk, p)) :
    { (s.assert !s.linked tk).pushNew p [tk] with
      creating := s.creating.eraseIdx k }.Coherent := by
  have hmem : tk ∈ s.contents (.shared .creating) :=
    List.mem_map_of_mem (f := Prod.fst) (List.mem_of_getElem? hk)
  rw [h.tidy.not_linked hmem (by simp [Place.IsList]), Bool.not_false, assert_true]
  refine h.pushNew (a := .creating) (p := p) (l := [tk]) rfl rfl rfl rfl rfl rfl ?_ ?_
  · exact (perm_eraseIdx hk).map Prod.fst
  · intro g hg
    cases g with
    | creating => exact absurd rfl hg
    | suspended | waking | tasks | slist | free => exact .refl _

end Create

section Wakeup

theorem wakeupBySelfIo_eq (hhome : (s.task tk).proc_ = some p) :
    s.wakeupBySelfIo tk =
      { s.setTask tk { s.task tk with state_ := .runnable } with
        suspended := s.suspended.erase tk
        waking := s.waking ++ [(tk, p)] } := by
  unfold Scheduler.wakeupBySelfIo
  split
  · rename_i p' hp'
    cases hhome.symm.trans hp'
    rfl
  · rename_i hnone
    cases hhome.symm.trans hnone

theorem Coherent.wakeupBySelfIo (h : s.Coherent) (hmem : tk ∈ s.suspended) :
    (s.wakeupBySelfIo tk).Coherent := by
  obtain ⟨_, p, hhome⟩ := h.suspended tk hmem
  have hthere : tk ∈ s.contents (.shared .suspended) := hmem
  have hnodup : s.suspended.Nodup := h.tidy.nodup (.shared .suspended)
  rw [wakeupBySelfIo_eq hhome]
  generalize ht : ({ s.setTask tk { s.task tk with state_ := .runnable } with
    suspended := s.suspended.erase tk
    waking := s.waking ++ [(tk, p)] } : Scheduler) = t
  have hself : t.task tk = { s.task tk with state_ := .runnable } := by
    rw [← ht]
    exact Function.update_self ..
  have hothers : ∀ tk' ≠ tk, t.task tk' = s.task tk' := fun tk' hne => by
    rw [← ht]
    exact Function.update_of_ne hne _ _
  have hproc : t.processers_ = s.processers_ := by rw [← ht]; rfl
  have hsuspended : t.suspended = s.suspended.erase tk := by rw [← ht]
  have hwaking : t.waking = s.waking ++ [(tk, p)] := by rw [← ht]
  have hframe : ∀ p', Frame s t p' := by
    intro p'
    have hne : ∀ q tk', tk' ∈ (s.processers_ p').held q → tk' ≠ tk := by
      intro q tk' hheld heq
      subst heq
      exact h.tidy.not_shared (g := .suspended) hheld hmem
    constructor
    case pc => rw [hproc]
    case running => rw [hproc]
    case next => rw [hproc]
    case queue =>
      intro tk' _ hqueue
      rw [hproc]
      exact hqueue
    case task =>
      rintro tk' _ (hqueue | hfinished)
      · exact hothers tk' (hne .runnable tk' hqueue)
      · exact hothers tk' (hne .finished tk' hfinished)
    case home =>
      intro tk' _
      by_cases heq : tk' = tk
      · rw [heq, hself]
      · rw [hothers tk' heq]
    case attached =>
      intro tk' _ _ hat
      by_cases heq : tk' = tk
      · apply Attached.woken
        simp [shared, hwaking, heq]
      · apply hat.transfer (hothers tk' heq)
        · rw [hproc]
          exact id
        · rw [hsuspended]
          exact (List.mem_erase_of_ne heq).mpr
        · intro hwoken
          apply Attached.woken
          rw [shared, hwaking, List.map_append]
          exact List.mem_append_left _ hwoken
  apply h.of_frame hframe
  · rw [← ht]
    exact h.sound
  · refine h.tidy.pass (a := .suspended) (b := .waking) (l := [tk]) (by decide) hproc
      (by rw [← ht]; rfl) ?_ ?_ ?_
    · rw [shared, shared, hsuspended]
      exact List.perm_cons_erase hmem
    · rw [shared, shared, hwaking, List.map_append]
      exact List.perm_append_comm
    · intro g hsus hwak
      rw [← ht]
      cases g with
      | suspended => exact absurd rfl hsus
      | waking => exact absurd rfl hwak
      | creating | tasks | slist | free => exact .refl _
  · intro tk' htk'
    rw [hsuspended, hnodup.mem_erase_iff] at htk'
    rw [Halted, hothers tk' htk'.1]
    exact h.suspended tk' htk'.2
  · intro w hw
    rw [hwaking, List.mem_append, List.mem_singleton] at hw
    rcases hw with hw | rfl
    · have hwoken : w.1 ∈ s.contents (.shared .waking) := List.mem_map_of_mem hw
      have hne : w.1 ≠ tk := by
        intro heq
        rw [heq] at hwoken
        have hsame := h.tidy.place_unique hwoken hthere
        simp at hsame
      rw [hothers w.1 hne]
      exact h.waking w hw
    · rw [hself]
      exact ⟨rfl, hhome⟩

theorem Coherent.wakeupPush (h : s.Coherent) (hk : s.waking[k]? = some (tk, p)) :
    (s.wakeupPush k tk p).Coherent := by
  obtain ⟨hstate, hhome⟩ := h.waking _ (List.mem_of_getElem? hk)
  have hmem : tk ∈ s.contents (.shared .waking) :=
    List.mem_map_of_mem (f := Prod.fst) (List.mem_of_getElem? hk)
  have hperm : s.shared .waking ~ tk :: (s.waking.eraseIdx k).map Prod.fst :=
    (perm_eraseIdx hk).map Prod.fst
  unfold Scheduler.wakeupPush
  rw [h.tidy.not_linked hmem (by simp [Place.IsList]), Bool.not_false, assert_true]
  show ({ s.setProcesser p { s.processers_ p with
    runnableQueue_ := (s.processers_ p).runnableQueue_.pushWithoutLock [tk] } with
    waking := s.waking.eraseIdx k } : Scheduler).Coherent
  generalize hx : ({ s.processers_ p with
    runnableQueue_ := (s.processers_ p).runnableQueue_.pushWithoutLock [tk] } : Processer) = x
  generalize ht : ({ s.setProcesser p x with waking := s.waking.eraseIdx k } : Scheduler) = t
  have htouch : Touches s t p x := by
    rw [← ht]
    exact ⟨rfl, rfl⟩
  have hqueue : x.runnableQueue_ = (s.processers_ p).runnableQueue_ ++ [tk] := by
    rw [← hx]
    rfl
  have hself : t.processers_ p = x := by
    rw [htouch.1, Function.update_self]
  have hothers : ∀ p' ≠ p, t.processers_ p' = s.processers_ p' := fun p' hp => by
    rw [htouch.1, Function.update_of_ne hp]
  have htask : t.task = s.task := by
    rw [← ht]
    rfl
  have hwaking : t.waking = s.waking.eraseIdx k := by rw [← ht]
  have hfields : ∀ p', (t.processers_ p').pc = (s.processers_ p').pc ∧
      (t.processers_ p').runningTask_ = (s.processers_ p').runningTask_ ∧
      (t.processers_ p').nextTask_ = (s.processers_ p').nextTask_ ∧
      (s.processers_ p').runnableQueue_ ⊆ (t.processers_ p').runnableQueue_ := by
    intro p'
    by_cases hp : p' = p
    · rw [hp, hself, hqueue, ← hx]
      exact ⟨rfl, rfl, rfl, List.subset_append_left _ _⟩
    · rw [hothers p' hp]
      exact ⟨rfl, rfl, rfl, List.Subset.refl _⟩
  have hframe : ∀ p', Frame s t p' := by
    intro p'
    obtain ⟨hpc, hrunning, hnext, hsubset⟩ := hfields p'
    constructor
    case pc => exact hpc
    case running => exact hrunning
    case next => exact hnext
    case queue => exact fun tk' _ hmem' => hsubset hmem'
    case task =>
      intro tk' _ _
      rw [htask]
    case home =>
      intro tk' _
      rw [htask]
    case attached =>
      intro tk' _ hhome' hat
      apply hat.transfer (congrFun htask tk') (fun hmem' => hsubset hmem')
      · rw [← ht]
        exact id
      · intro hmem'
        rw [hperm.mem_iff, List.mem_cons] at hmem'
        rcases hmem' with rfl | hmem'
        · -- the task comes to the queue of the Processer it was suspended on
          have hp : p = p' := Option.some.inj (hhome.symm.trans hhome')
          subst hp
          apply Attached.queued
          · rw [hself, hqueue]
            exact List.mem_append_right _ (List.mem_singleton_self _)
          · rw [htask]
            exact hstate
        · exact .woken (by rwa [shared, hwaking])
  apply h.of_frame hframe
  · rw [← ht]
    exact h.sound
  · refine h.tidy.move htouch (i := .shared .waking) (j := .processer p .runnable) (l := [tk])
      processer_ne_shared.symm ?_ ?_ ?_ ?_
    · show s.shared .waking ~ [tk] ++ t.waking.map Prod.fst
      rw [hwaking]
      exact hperm
    · rw [htouch.held]
      show x.runnableQueue_ ~ _
      rw [hqueue]
      exact List.perm_append_comm
    · intro q _ hq
      rw [← hx]
      cases q with
      | runnable => exact absurd rfl hq
      | new | adding | finished => exact .refl _
    · intro g hg _
      rw [← ht]
      cases g with
      | waking => exact absurd rfl hg
      | creating | suspended | tasks | slist | free => exact .refl _
  · intro tk' htk'
    rw [Halted, htask]
    apply h.suspended
    rw [← ht] at htk'
    exact htk'
  · intro w hw
    rw [htask]
    rw [hwaking] at hw
    exact h.waking w (List.mem_of_mem_eraseIdx hw)

end Wakeup

section AvgTotalTasks

variable {a : Averaging} {d : DispatcherPc} {n : Nat} {slist : TaskList}

theorem Coherent.setDispatcher (h : s.Coherent)
    (htidy : ({ s with dispatcher := d } : Scheduler).Tidy) :
    ({ s with dispatcher := d } : Scheduler).Coherent :=
  h.outside rfl (fun _ _ => rfl) rfl rfl h.sound htidy

theorem Coherent.setDispatcher_same (h : s.Coherent) (htasks : d.tasks = s.dispatcher.tasks)
    (hslist : d.slist = s.dispatcher.slist) :
    ({ s with dispatcher := d } : Scheduler).Coherent := by
  apply h.setDispatcher
  refine h.tidy.stay (.none rfl rfl) (fun _ => .refl _) ?_
  intro g
  cases g with
  | tasks => exact .of_eq htasks
  | slist => exact .of_eq hslist
  | creating | suspended | waking | free => exact .refl _

theorem Tidy.take {x : Processer} {b : Shared} {q : Hold} (h : s.Tidy)
    (hq : (s.processers_ p).held q ~ l ++ x.held q)
    (hheld : ∀ q', q' ≠ q → x.held q' ~ (s.processers_ p).held q')
    (hb : ({ s.setProcesser p x with dispatcher := d } : Scheduler).shared b ~ l ++ s.shared b)
    (hother : ∀ g, g ≠ b →
      ({ s.setProcesser p x with dispatcher := d } : Scheduler).shared g ~ s.shared g) :
    ({ s.setProcesser p x with dispatcher := d } : Scheduler).Tidy := by
  have ht : Touches s { s.setProcesser p x with dispatcher := d } p x := ⟨rfl, rfl⟩
  refine h.move ht (i := .processer p q) (j := .shared b) (l := l) processer_ne_shared ?_ hb ?_ ?_
  · rw [ht.held]
    exact hq
  · intro q' hq' _
    exact hheld q' fun heq => hq' (heq ▸ rfl)
  · intro g _ hg
    exact hother g fun heq => hg (heq ▸ rfl)

theorem Coherent.takeNew {b : Shared} (h : s.Coherent)
    (hb : ({ s.setProcesser p ((s.processers_ p).stealNew n).1 with dispatcher := d } :
      Scheduler).shared b ~ ((s.processers_ p).stealNew n).2 ++ s.shared b)
    (hother : ∀ g, g ≠ b →
      ({ s.setProcesser p ((s.processers_ p).stealNew n).1 with dispatcher := d } :
        Scheduler).shared g ~ s.shared g) :
    ({ s.setProcesser p ((s.processers_ p).stealNew n).1 with dispatcher := d } :
      Scheduler).Coherent := by
  refine h.aside rfl rfl rfl rfl (fun _ _ => id) (fun _ _ => rfl) rfl rfl h.sound ?_
  refine h.tidy.take (q := .new) ((s.processers_ p).stealNew_spec n).1 ?_ hb hother
  intro q hq
  cases q with
  | new => exact absurd rfl hq
  | runnable | adding | finished => exact .refl _

theorem Coherent.steal (h : s.Coherent) (hd : s.dispatcher = .steal a) : (s.steal a).Coherent := by
  unfold Scheduler.steal
  split
  · simp only
    split
    · split
      · refine h.takeNew (b := .tasks) ?_ ?_
        · rw [shared, shared, hd]
          exact List.perm_append_comm
        · intro g hg
          cases g with
          | tasks => exact absurd rfl hg
          | slist =>
              rw [shared, shared, hd]
              exact .refl _
          | creating | suspended | waking | free => exact .refl _
      · refine h.takeNew (b := .slist) ?_ ?_
        · rw [shared, shared, hd]
          exact .of_eq (List.append_nil _).symm
        · intro g hg
          cases g with
          | slist => exact absurd rfl hg
          | tasks =>
              rw [shared, shared, hd]
              exact .refl _
          | creating | suspended | waking | free => exact .refl _
    · apply h.setDispatcher_same <;> rw [hd] <;> rfl
  · apply h.setDispatcher_same <;> rw [hd] <;> rfl

/-- The second critical section of `Steal`, up to the appending of its two lists. -/
theorem Coherent.takeRunnable (h : s.Coherent) (hd : s.dispatcher = .stealRunnable a n slist) :
    ({ s.setProcesser p ((s.processers_ p).stealRunnable n slist.length).1 with
      dispatcher := .stealRunnable a n
        (((s.processers_ p).stealRunnable n slist.length).2 ++ slist) } : Scheduler).Coherent := by
  have hspec := (s.processers_ p).stealRunnable_spec n slist.length
  refine h.aside rfl ?_ ?_ ?_ ?_ (fun _ _ => rfl) rfl rfl h.sound ?_
  · rw [hspec.same]
  · rw [hspec.same]
  · rw [hspec.same]
  · rintro tk (hrun | hnext) hmem
    · exact hspec.running tk hrun hmem
    · exact hspec.next tk hnext hmem
  · refine h.tidy.take (q := .runnable) (b := .slist) hspec.perm ?_ ?_ ?_
    · intro q hq
      rw [hspec.same]
      cases q with
      | runnable => exact absurd rfl hq
      | new | adding | finished => exact .refl _
    · rw [shared, shared, hd]
      exact .refl _
    · intro g hg
      cases g with
      | slist => exact absurd rfl hg
      | tasks =>
          rw [shared, shared, hd]
          exact .refl _
      | creating | suspended | waking | free => exact .refl _

theorem Coherent.stealRunnable (h : s.Coherent) (hd : s.dispatcher = .stealRunnable a n slist) :
    (s.stealRunnable a n slist).Coherent := by
  have htaken := h.takeRunnable (p := a.i) hd
  unfold Scheduler.stealRunnable
  simp only [h.owns_running, h.owns_next, Bool.and_self, assert_true]
  apply htaken.setDispatcher
  refine htaken.tidy.pass (a := .slist) (b := .tasks)
    (l := ((s.processers_ a.i).stealRunnable n slist.length).2 ++ slist) (by decide) rfl rfl ?_ ?_ ?_
  · exact .of_eq (List.append_nil _).symm
  · exact List.perm_append_comm
  · intro g hslist htasks
    cases g with
    | slist => exact absurd rfl hslist
    | tasks => exact absurd rfl htasks
    | creating | suspended | waking | free => exact .refl _

theorem Coherent.deal (h : s.Coherent) (hd : s.dispatcher = .deal a) : (s.deal a).Coherent := by
  unfold Scheduler.deal
  split
  · simp only
    split
    · have hcut := a.tasks.cut_append (a.avg - a.cacheTaskCounts.getD a.i 0)
      generalize a.tasks.cut (a.avg - a.cacheTaskCounts.getD a.i 0) = r at hcut
      split
      · rename_i hempty
        apply h.setDispatcher_same <;> rw [hd]
        · rw [List.isEmpty_iff.mp hempty, List.nil_append] at hcut
          exact hcut
        · rfl
      · apply h.setDispatcher
        refine h.tidy.pass (a := .tasks) (b := .slist) (l := r.1) (by decide) rfl rfl ?_ ?_ ?_
        · rw [shared, shared, hd]
          exact .of_eq hcut.symm
        · rw [shared, shared, hd]
          exact .of_eq (List.append_nil _).symm
        · intro g htasks hslist
          cases g with
          | tasks => exact absurd rfl htasks
          | slist => exact absurd rfl hslist
          | creating | suspended | waking | free => exact .refl _
    · apply h.setDispatcher_same <;> rw [hd] <;> rfl
  · apply h.setDispatcher_same <;> rw [hd] <;> rfl

theorem Coherent.give {b : Shared} (h : s.Coherent)
    (hb : s.shared b ~ l ++ ({ s.pushNew p l with dispatcher := d } : Scheduler).shared b)
    (hother : ∀ g, g ≠ b →
      ({ s.pushNew p l with dispatcher := d } : Scheduler).shared g ~ s.shared g) :
    ({ s.pushNew p l with dispatcher := d } : Scheduler).Coherent :=
  h.pushNew rfl rfl rfl rfl rfl rfl hb hother

theorem Coherent.avgTotalTasks (h : s.Coherent) : s.avgTotalTasks.Coherent := by
  unfold Scheduler.avgTotalTasks
  split
  case h_1 hd =>
    split
    · exact h
    · apply h.setDispatcher_same <;> rw [hd] <;> rfl
  case h_2 hd =>
    simp only
    split
    · apply h.setDispatcher_same <;> rw [hd] <;> rfl
    · split
      · apply h.setDispatcher_same <;> rw [hd] <;> rfl
      · apply h.setDispatcher_same <;> rw [hd] <;> rfl
  case h_3 hd => apply h.setDispatcher_same <;> rw [hd] <;> rfl
  case h_4 a hd => exact h.steal hd
  case h_5 a n slist hd => exact h.stealRunnable hd
  case h_6 a hd => exact h.deal hd
  case h_7 a slist hd =>
    apply h.give (b := .slist)
    · rw [shared, shared, hd]
      exact .of_eq (List.append_nil _).symm
    · intro g hg
      cases g with
      | slist => exact absurd rfl hg
      | tasks =>
          rw [shared, shared, hd]
          exact .refl _
      | creating | suspended | waking | free => exact .refl _
  case h_8 tasks hd =>
    split
    · rename_i hempty
      apply h.setDispatcher_same <;> rw [hd]
      · exact (List.isEmpty_iff.mp hempty).symm
      · rfl
    · apply h.give (b := .tasks)
      · rw [shared, shared, hd]
        exact .of_eq (List.append_nil _).symm
      · intro g hg
        cases g with
        | tasks => exact absurd rfl hg
        | slist =>
            rw [shared, shared, hd]
            exact .refl _
        | creating | suspended | waking | free => exact .refl _

end AvgTotalTasks

end Scheduler

end CppGo.Scheduling
