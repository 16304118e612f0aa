import CppGo.Scheduler.DeadTasks
import CppGo.Scheduler.TaskFlows

/-!
# The steps of `ReleaseTask`

A task that `ReleaseTask` takes out of a queue is dead from then on: the scheduler without it
stays coherent, while the other threads go on.
-/

namespace CppGo.Scheduling

open CppGo.Lib

open scoped List

def ReleaseLoop.hold : ReleaseLoop → Hold
  | runnable => .runnable
  | new => .new

namespace Processer

variable {x : Processer} {q : ReleaseLoop} {tk tk' : TaskPtr}

theorem held_hold : x.held q.hold = x.releaseQueue q := by
  cases q <;> rfl

theorem held_popRelease : (x.popRelease q).held q.hold = (x.releaseQueue q).tail := by
  cases q <;> rfl

theorem held_popRelease_of_ne {a : Hold} (ha : a ≠ q.hold) : (x.popRelease q).held a = x.held a := by
  cases q <;> cases a <;> first | rfl | exact absurd rfl ha

theorem releaseQueue_eq (hhead : (x.releaseQueue q).head? = some tk) :
    x.releaseQueue q = tk :: (x.releaseQueue q).tail := by
  cases hqueue : x.releaseQueue q with
  | nil =>
      rw [hqueue] at hhead
      cases hhead
  | cons tk' queue =>
      rw [hqueue] at hhead
      cases hhead
      rfl

theorem popRelease_eq (hhead : (x.releaseQueue q).head? = none) : x.popRelease q = x := by
  have hnil := List.head?_eq_none_iff.mp hhead
  cases q with
  | runnable =>
      change x.runnableQueue_ = [] at hnil
      unfold popRelease
      rw [hnil, List.tail_nil, ← hnil]
  | new =>
      change x.newQueue_ = [] at hnil
      unfold popRelease
      rw [hnil, List.tail_nil, ← hnil]

theorem mem_popRelease (hhead : (x.releaseQueue q).head? = some tk) (hmem : tk' ∈ x.runnableQueue_)
    (hne : tk' ≠ tk) : tk' ∈ (x.popRelease q).runnableQueue_ := by
  cases q with
  | runnable =>
      have heq : x.runnableQueue_ = tk :: x.runnableQueue_.tail := releaseQueue_eq hhead
      rw [heq] at hmem
      exact (List.mem_cons.mp hmem).resolve_left hne
  | new => exact hmem

end Processer

namespace Scheduler

variable {s : Scheduler} {out : Nat → Bool} {dead : TaskList} {p : Nat} {q : ReleaseLoop}
  {tk : TaskPtr}

/-- The pointers of a Processer outside `exec` and the branches are to tasks of its queue. -/
theorem Coherent.running_mem (h : s.Coherent)
    (hpc : (s.processers_ p).pc.Between ∨ (s.processers_ p).pc = .loop)
    (hrun : (s.processers_ p).runningTask_ = some tk) :
    (s.processers_ p).pc = .loop ∧ tk ∈ (s.processers_ p).runnableQueue_ := by
  rcases hpc with hpc | hpc
  · rw [h.idle hpc] at hrun
    cases hrun
  · exact ⟨hpc, h.picked hpc hrun⟩

theorem mem_forget_of_list {i : Place} (hi : i.IsList) (hmem : tk ∈ s.contents i) :
    tk ∈ (s.forget out dead).contents i := by
  cases i with
  | shared g =>
      rcases hi with rfl | rfl
      · exact hmem
      · exact hmem
  | processer p q =>
      show tk ∈ ((s.forget out dead).processers_ p).held q
      cases q with
      | runnable => rwa [Processer.held, runnableQueue_forget]
      | new => rwa [Processer.held, newQueue_forget]
      | adding => rwa [Processer.held, pc_forget]
      | finished => exact absurd rfl hi

theorem Coherent.forget_cons {p' : Nat} (h : (s.forget out dead).Coherent) (hp : p' ≠ p)
    (hmem : tk ∈ ((s.forget out dead).processers_ p).held q.hold) (hout : out p' = true) :
    (s.processers_ p').forget (tk :: dead) = (s.processers_ p').forget dead := by
  have hrunning : ((s.processers_ p').runningTask_.filter fun tk => tk ∉ dead) ≠ some tk := by
    intro hrun
    refine h.not_held hp ?_ q.hold hmem
    rw [processers_forget_out hout]
    exact hrun
  have hnext : ((s.processers_ p').nextTask_.filter fun tk => tk ∉ dead) ≠ some tk := by
    intro hnext
    have hqueued : tk ∈ (s.forget out dead).contents (.processer p' .runnable) := by
      apply h.next p' tk
      rw [processers_forget_out hout]
      exact hnext
    have hthere : tk ∈ (s.forget out dead).contents (.processer p q.hold) := hmem
    have heq := h.tidy.place_unique hqueued hthere
    injection heq with heq
    exact hp heq
  unfold Processer.forget
  rw [Processer.filter_cons hrunning, Processer.filter_cons hnext]

theorem Tidy.popRelease (h : (s.forget out dead).Tidy) (hp : out p = true)
    (hpc : (s.processers_ p).pc ≠ .doneAdvance)
    (hhead : ((s.processers_ p).releaseQueue q).head? = some tk)
    (hproc : ((s.setProcesser p ((s.processers_ p).popRelease q)).forget out (tk :: dead)).processers_ =
      Function.update (s.forget out dead).processers_ p
        (((s.processers_ p).popRelease q).forget (tk :: dead))) :
    ((s.setProcesser p ((s.processers_ p).popRelease q)).forget out (tk :: dead)).Tidy := by
  have hself : (s.forget out dead).processers_ p = (s.processers_ p).forget dead :=
    processers_forget_out hp
  have ht : Touches (s.forget out dead)
      ((s.setProcesser p ((s.processers_ p).popRelease q)).forget out (tk :: dead)) p
      (((s.processers_ p).popRelease q).forget (tk :: dead)) := ⟨hproc, rfl⟩
  have hheld : ∀ {x : Processer} {dead : TaskList} {a : Hold}, x.pc ≠ .doneAdvance →
      (x.forget dead).held a = x.held a := by
    intro x dead a hpc
    cases a with
    | runnable | new | adding => rfl
    | finished =>
        rw [Processer.held, Processer.held, if_neg hpc]
        exact if_neg hpc
  have hpc' : ((s.processers_ p).popRelease q).pc ≠ .doneAdvance := by
    cases q <;> exact hpc
  refine h.move ht (i := .processer p q.hold) (j := .shared .creating) (l := [tk])
    processer_ne_shared ?_ ?_ ?_ ?_
  · rw [ht.held, hheld hpc', Processer.held_popRelease]
    show ((s.forget out dead).processers_ p).held q.hold ~ _
    rw [hself, hheld hpc, Processer.held_hold, Processer.releaseQueue_eq hhead]
    exact .refl _
  · exact .refl _
  · intro a ha _
    rw [hheld hpc', hself, hheld hpc, Processer.held_popRelease_of_ne]
    rintro rfl
    exact ha rfl
  · intro g _ hg
    cases g with
    | creating => exact absurd rfl hg
    | suspended | waking | tasks | slist | free => exact .refl _

theorem Coherent.popRelease (h : (s.forget out dead).Coherent) (hp : out p = true)
    (hpc : (s.processers_ p).pc.Between ∨ (s.processers_ p).pc = .loop)
    (hhead : ((s.processers_ p).releaseQueue q).head? = some tk) :
    ((s.setProcesser p ((s.processers_ p).popRelease q)).forget out (tk :: dead)).Coherent := by
  have hself : (s.forget out dead).processers_ p = (s.processers_ p).forget dead :=
    processers_forget_out hp
  have hmem : tk ∈ ((s.forget out dead).processers_ p).held q.hold := by
    have hqueued : tk ∈ (s.processers_ p).held q.hold := by
      rw [Processer.held_hold, Processer.releaseQueue_eq hhead]
      exact List.mem_cons_self
    apply mem_forget_of_list (i := .processer p q.hold) ?_ hqueued
    cases q <;> exact Hold.noConfusion
  have hproc : ((s.setProcesser p ((s.processers_ p).popRelease q)).forget out
      (tk :: dead)).processers_ =
      Function.update (s.forget out dead).processers_ p
        (((s.processers_ p).popRelease q).forget (tk :: dead)) := by
    ext1 p'
    by_cases hp' : p' = p
    · rw [hp', Function.update_self, processers_forget_out hp, processers_setProcesser]
    · rw [Function.update_of_ne hp']
      have hsame : (s.setProcesser p ((s.processers_ p).popRelease q)).processers_ p' =
          s.processers_ p' := Function.update_of_ne hp' ..
      by_cases hout : out p' = true
      · rw [processers_forget_out hout, processers_forget_out hout, hsame, h.forget_cons hp' hmem hout]
      · have hin := Bool.eq_false_of_not_eq_true hout
        rw [processers_forget hin, processers_forget hin, hsame]
  have hpcs : ((s.processers_ p).popRelease q).pc = (s.processers_ p).pc := by
    cases q <;> rfl
  have hpc' : ((s.forget out dead).processers_ p).pc.Between ∨
      ((s.forget out dead).processers_ p).pc = .loop := by
    rwa [pc_forget]
  -- a pointer that is not to the task was one to a task of the queue before
  have hkept : ∀ {hook : Option TaskPtr} {tk' : TaskPtr},
      (hook.filter fun t => t ∉ tk :: dead) = some tk' →
      ((hook.filter fun t => t ∉ dead) = some tk' →
        tk' ∈ ((s.forget out dead).processers_ p).runnableQueue_) →
      tk' ∈ ((s.processers_ p).popRelease q).runnableQueue_ := by
    intro hook tk' hfilter hold
    obtain ⟨hhook, hnot⟩ := Processer.filter_eq_some.mp hfilter
    have hne := List.ne_of_not_mem_cons hnot
    have hdead := List.not_mem_of_not_mem_cons hnot
    have hqueued := hold (Processer.filter_eq_some.mpr ⟨hhook, hdead⟩)
    rw [runnableQueue_forget] at hqueued
    exact Processer.mem_popRelease hhead hqueued hne
  refine h.advance hproc (fun _ _ => rfl) (List.append_nil _).symm rfl (by simp) h.sound
    (h.tidy.popRelease hp ?_ hhead hproc) ?_ ?_
  · rcases hpc with hpc | hpc
    · intro heq
      rw [heq] at hpc
      exact hpc
    · rw [hpc]
      exact ProcessPc.noConfusion
  · have hpicked : ∀ tk', (((s.processers_ p).popRelease q).forget (tk :: dead)).runningTask_ =
        some tk' → (s.processers_ p).pc = .loop ∧
          tk' ∈ ((s.processers_ p).popRelease q).runnableQueue_ := by
      intro tk' hrun
      have hfilter : ((s.processers_ p).runningTask_.filter fun t => t ∉ tk :: dead) = some tk' := by
        cases q <;> exact hrun
      have hold : ((s.processers_ p).runningTask_.filter fun t => t ∉ dead) = some tk' →
          ((s.forget out dead).processers_ p).runningTask_ = some tk' := by
        rw [hself]
        exact id
      obtain ⟨hhook, hnot⟩ := Processer.filter_eq_some.mp hfilter
      have hrun' := hold (Processer.filter_eq_some.mpr ⟨hhook, List.not_mem_of_not_mem_cons hnot⟩)
      refine ⟨?_, hkept hfilter fun hrun => (h.running_mem hpc' (hold hrun)).2⟩
      have hloop := (h.running_mem hpc' hrun').1
      rwa [pc_forget] at hloop
    show Phase _ p ((s.processers_ p).popRelease q).pc _
    rw [hpcs]
    rcases hpc with hpc | hpc
    · have hnone : (((s.processers_ p).popRelease q).forget (tk :: dead)).runningTask_ = none := by
        rw [Option.eq_none_iff_forall_ne_some]
        intro tk' hrun
        rw [(hpicked tk' hrun).1] at hpc
        exact hpc
      rw [hnone]
      exact .between hpc
    · rw [hpc]
      refine .picked fun tk' hrun => ?_
      rw [runnableQueue_forget, processers_setProcesser]
      exact (hpicked tk' hrun).2
  · intro tk' hnext
    have hfilter : ((s.processers_ p).nextTask_.filter fun t => t ∉ tk :: dead) = some tk' := by
      cases q <;> exact hnext
    refine hkept hfilter fun hold => ?_
    apply h.next p tk'
    rw [hself]
    exact hold

theorem Coherent.inactive (h : (s.forget out dead).Coherent) (hp : out p = true) :
    ((s.setProcesser p { s.processers_ p with active_ := false }).forget out dead).Coherent := by
  have hself : (s.forget out dead).processers_ p = (s.processers_ p).forget dead :=
    processers_forget_out hp
  rw [forget_setProcesser, if_pos hp]
  have hset : ({ s.processers_ p with active_ := false } : Processer).forget dead =
      { (s.forget out dead).processers_ p with active_ := false } := by
    rw [hself]
    rfl
  rw [hset]
  refine h.aside rfl rfl rfl rfl (fun _ _ => id) (fun _ _ => rfl) rfl rfl h.sound
    (h.tidy.stay ⟨rfl, rfl⟩ (fun q => ?_) fun _ => .refl _)
  cases q <;> exact .refl _

end Scheduler

namespace Shutdown

variable {S T : Shutdown} {e : SchedulerStep} {dead : TaskList} {p : Nat} {tk : TaskPtr}

section Overlay

def out (S : Shutdown) (p : Nat) : Bool := S.exit p ≠ .process

/-- `dead` are the tasks that `ReleaseTask` has taken out of a queue: they have been deleted,
or the thread that took them is about to do so. -/
structure Overlay (S : Shutdown) (dead : TaskList) : Prop where
  coherent : (S.scheduler.forget S.out dead).Coherent
  mem_dead : ∀ tk, tk ∈ dead ↔ tk ∈ S.deleted ∨ ∃ p, (S.exit p).task = some tk
  nodup : S.deleted.Nodup
  held : ∀ p tk, (S.exit p).task = some tk → tk ∉ S.deleted
  alone : ∀ p p' tk, (S.exit p).task = some tk → (S.exit p').task = some tk → p = p'
  halted : ∀ p, S.out p = true →
    (S.scheduler.processers_ p).pc.Between ∨ (S.scheduler.processers_ p).pc = .loop
  within : ∀ p, S.out p = true → p < S.scheduler.size

theorem overlay_make : make.Overlay [] where
  coherent := Scheduler.coherent_make
  mem_dead tk := by
    constructor
    · exact fun h => absurd h List.not_mem_nil
    · rintro (h | ⟨p, h⟩)
      · exact h
      · cases h
  nodup := .nil
  held _ _ := nofun
  alone _ _ _ := nofun
  halted _ := nofun
  within _ := nofun

theorem Overlay.of_same (h : S.Overlay dead) (hscheduler : T.scheduler = S.scheduler)
    (hdeleted : T.deleted = S.deleted) (hout : T.out = S.out)
    (htask : ∀ p, (T.exit p).task = (S.exit p).task) : T.Overlay dead where
  coherent := by
    rw [hscheduler, hout]
    exact h.coherent
  mem_dead tk := by
    simp only [hdeleted, htask]
    exact h.mem_dead tk
  nodup := hdeleted ▸ h.nodup
  held p tk := by
    rw [hdeleted, htask]
    exact h.held p tk
  alone p p' tk := by
    rw [htask, htask]
    exact h.alone p p' tk
  halted p := by
    rw [hscheduler, hout]
    exact h.halted p
  within p := by
    rw [hscheduler, hout]
    exact h.within p

theorem Overlay.not_deleted (h : S.Overlay dead) {i : Place}
    (hi : ∀ p, i = .processer p .finished → S.out p = false)
    (hmem : tk ∈ S.scheduler.contents i) : tk ∉ S.deleted :=
  fun hdeleted => Scheduler.not_dead h.coherent.tidy hi hmem ((h.mem_dead tk).mpr (.inl hdeleted))

end Overlay

section SchedulerStep

variable {t : Scheduler}

structure Passes (S T : Shutdown) (e : SchedulerStep) : Prop where
  may : S.mayStep e = true
  step : S.scheduler.step e = some T.scheduler
  stop_ : T.stop_ = S.stop_
  stop : T.stop = S.stop
  exit : T.exit = S.exit
  deleted : T.deleted = S.deleted
  queued : T.queued = S.queued
  ceased : T.ceased = if S.stop_ then S.ceased ++ (S.scheduler.leaves e).toList else S.ceased
  dispatchThread_ : T.dispatchThread_ =
    if e = .avgTotalTasks then S.afterCall T.scheduler.dispatcher else S.dispatchThread_

theorem passes_of_step (hs : S.schedulerStep e = some T) : Passes S T e := by
  obtain ⟨hmay, hs⟩ := Option.ite_none_right_eq_some.mp hs
  obtain ⟨t, ht, rfl⟩ := Option.map_eq_some_iff.mp hs
  cases e <;> exact ⟨hmay, ht, rfl, rfl, rfl, rfl, rfl, rfl, rfl⟩

theorem inside_of_mayStep (h : S.mayStep e = true) : Scheduler.Inside S.out e := by
  cases e with
  | process p =>
      have hprocess := (Bool.and_eq_true_iff.mp h).1
      exact decide_eq_false (not_not.mpr (of_decide_eq_true hprocess))
  | yield p | suspendBySelfIo p | runOn p | finish p =>
      exact decide_eq_false (not_not.mpr (of_decide_eq_true h))
  | newProcessThread | createTask n | addTask k | wakeupBySelfIo tk | wakeupPush k
  | avgTotalTasks => trivial

theorem size_le_of_step (hs : S.scheduler.step e = some t) : S.scheduler.size ≤ t.size := by
  by_cases he : e = .newProcessThread
  · subst he
    obtain ⟨-, hs⟩ := Option.ite_none_right_eq_some.mp hs
    cases hs
    exact Nat.le_succ _
  · rw [(Scheduler.step_dispatcher hs).2 he]

theorem Overlay.schedulerStep (h : S.Overlay dead) (hs : S.schedulerStep e = some T) :
    T.Overlay dead := by
  have hpasses := passes_of_step hs
  have hin := inside_of_mayStep hpasses.may
  have hout : T.out = S.out := by
    unfold out
    rw [hpasses.exit]
  have hother : ∀ p, S.out p = true → e ≠ .process p := by
    rintro p hp rfl
    change S.out p = false at hin
    rw [hp] at hin
    cases hin
  have hforget : (S.scheduler.forget S.out dead).step (Scheduler.forgetStep dead.length e) =
      some (T.scheduler.forget S.out dead) :=
    Scheduler.step_forget hpasses.step hin fun tk hdead i hi hmem =>
      Scheduler.not_dead_of_list h.coherent.tidy hi hmem hdead
  constructor
  case coherent =>
    rw [hout]
    exact h.coherent.step hforget
  case mem_dead =>
    intro tk
    rw [hpasses.deleted, hpasses.exit]
    exact h.mem_dead tk
  case nodup =>
    rw [hpasses.deleted]
    exact h.nodup
  case held =>
    rw [hpasses.deleted, hpasses.exit]
    exact h.held
  case alone =>
    rw [hpasses.exit]
    exact h.alone
  case halted =>
    intro p hp
    rw [hout] at hp
    have hhalted := h.halted p hp
    rw [Scheduler.pc_step hpasses.step (hother p hp)]
    · exact hhalted
    · intro tk hexec
      rw [hexec] at hhalted
      rcases hhalted with hbetween | hloop
      · exact hbetween
      · cases hloop
    · intro _ tk hsuspended
      rw [hsuspended] at hhalted
      rcases hhalted with hbetween | hloop
      · exact hbetween
      · cases hloop
  case within =>
    intro p hp
    rw [hout] at hp
    exact Nat.lt_of_lt_of_le (h.within p hp) (size_le_of_step hpasses.step)

end SchedulerStep

section Release

theorem readsStop_cases {x : Processer} (h : x.readsStop = true) :
    (x.pc.Between ∨ x.pc = .loop) ∧ x.pc.elements = [] := by
  unfold Processer.readsStop at h
  generalize x.pc = pc at h
  cases pc with
  | front | addEmpty idle => exact ⟨.inl trivial, rfl⟩
  | loop => exact ⟨.inr rfl, rfl⟩
  | addPop idle | addPush idle elements | frontAgain | waitLoop | exec tk | suspending tk
  | suspended tk | switched | block | runnable | doneNext | doneErase | doneAdvance => cases h

theorem Overlay.isStop (h : S.Overlay dead) (hp : p < S.scheduler.size)
    (hexit : S.exit p = .process) (hreads : (S.scheduler.processers_ p).readsStop = true) :
    (S.isStop p).Overlay dead := by
  unfold Shutdown.isStop
  split
  · have hin : S.out p = false := decide_eq_false (not_not.mpr hexit)
    have hself : (S.scheduler.forget S.out dead).processers_ p = S.scheduler.processers_ p :=
      Scheduler.processers_forget hin
    have hout : ({ S with exit := Function.update S.exit p (.empty .runnable) } : Shutdown).out =
        Function.update S.out p true := by
      ext1 p'
      unfold out
      by_cases hp' : p' = p
      · rw [hp']
        simp
      · simp [Function.update_of_ne hp']
    have htask : ∀ p', (Function.update S.exit p (.empty .runnable) p').task = (S.exit p').task := by
      intro p'
      by_cases hp' : p' = p
      · rw [hp', Function.update_self, hexit]
        rfl
      · rw [Function.update_of_ne hp']
    have hpc := (readsStop_cases hreads).1
    have hlive : ∀ tk, tk ∈ (S.scheduler.processers_ p).runnableQueue_ → tk ∉ dead :=
      fun tk hmem => Scheduler.not_dead_of_list (i := .processer p .runnable) h.coherent.tidy
        Hold.noConfusion hmem
    have hforget : S.scheduler.forget (Function.update S.out p true) dead =
        S.scheduler.forget S.out dead := by
      apply Scheduler.forget_update ?_ ?_ hin
      · intro tk hrun
        apply hlive
        rw [← hself] at hpc hrun ⊢
        exact (h.coherent.running_mem hpc hrun).2
      · intro tk hnext
        apply hlive
        rw [← hself] at hnext ⊢
        exact h.coherent.next p tk hnext
    constructor
    case coherent =>
      rw [hout, hforget]
      exact h.coherent
    case mem_dead =>
      intro tk
      simp only [htask]
      exact h.mem_dead tk
    case nodup => exact h.nodup
    case held =>
      simp only [htask]
      exact h.held
    case alone =>
      simp only [htask]
      exact h.alone
    case halted =>
      intro p' hp'
      rw [hout] at hp'
      by_cases heq : p' = p
      · rw [heq]
        exact hpc
      · rw [Function.update_of_ne heq] at hp'
        exact h.halted p' hp'
    case within =>
      intro p' hp'
      rw [hout] at hp'
      by_cases heq : p' = p
      · rw [heq]
        exact hp
      · rw [Function.update_of_ne heq] at hp'
        exact h.within p' hp'
  · exact h.of_same rfl rfl rfl fun _ => rfl

theorem out_update {pc : ReleasePc} (hpc : pc ≠ .process) (hexit : S.exit p ≠ .process)
    (hT : T.exit = Function.update S.exit p pc) : T.out = S.out := by
  ext1 p'
  unfold out
  rw [hT]
  by_cases hp : p' = p
  · rw [hp, Function.update_self]
    simp [hpc, hexit]
  · rw [Function.update_of_ne hp]

theorem task_update {pc : ReleasePc} (hpc : pc.task = (S.exit p).task)
    (hT : T.exit = Function.update S.exit p pc) (p' : Nat) :
    (T.exit p').task = (S.exit p').task := by
  rw [hT]
  by_cases hp : p' = p
  · rw [hp, Function.update_self, hpc]
  · rw [Function.update_of_ne hp]

theorem Overlay.halted_of_out (h : S.Overlay dead) (hout : T.out = S.out)
    (hpc : ∀ p, (T.scheduler.processers_ p).pc = (S.scheduler.processers_ p).pc) (p : Nat)
    (hp : T.out p = true) :
    (T.scheduler.processers_ p).pc.Between ∨ (T.scheduler.processers_ p).pc = .loop := by
  rw [hout] at hp
  rw [hpc]
  exact h.halted p hp

theorem Overlay.within_of_out (h : S.Overlay dead) (hout : T.out = S.out)
    (hsize : T.scheduler.size = S.scheduler.size) (p : Nat) (hp : T.out p = true) :
    p < T.scheduler.size := by
  rw [hout] at hp
  rw [hsize]
  exact h.within p hp

theorem Overlay.pop (h : S.Overlay dead) {q : ReleaseLoop} (hexit : S.exit p = .pop q)
    (hhead : ((S.scheduler.processers_ p).releaseQueue q).head? = some tk)
    (hscheduler : T.scheduler =
      S.scheduler.setProcesser p ((S.scheduler.processers_ p).popRelease q))
    (hT : T.exit = Function.update S.exit p (.delete q (some tk)))
    (hdeleted : T.deleted = S.deleted) : T.Overlay (tk :: dead) := by
  have hprocess : S.exit p ≠ .process := by
    rw [hexit]
    exact ReleasePc.noConfusion
  have hout : T.out = S.out := out_update ReleasePc.noConfusion hprocess hT
  have hp : S.out p = true := decide_eq_true hprocess
  have hmem : tk ∈ S.scheduler.contents (.processer p q.hold) := by
    show tk ∈ (S.scheduler.processers_ p).held q.hold
    rw [Processer.held_hold]
    exact List.mem_of_mem_head? hhead
  have hlive : tk ∉ dead := by
    apply Scheduler.not_dead_of_list h.coherent.tidy ?_ hmem
    cases q <;> exact Hold.noConfusion
  have htask : ∀ p' tk', (T.exit p').task = some tk' ↔
      p' = p ∧ tk' = tk ∨ (S.exit p').task = some tk' := by
    intro p' tk'
    rw [hT]
    by_cases hp' : p' = p
    · rw [hp', Function.update_self, hexit]
      simp [ReleasePc.task, eq_comm]
    · rw [Function.update_of_ne hp']
      simp [hp']
  have hnone : ∀ p', (S.exit p').task ≠ some tk := fun p' hp' =>
    hlive ((h.mem_dead tk).mpr (.inr ⟨p', hp'⟩))
  constructor
  case coherent =>
    rw [hscheduler, hout]
    exact h.coherent.popRelease hp (h.halted p hp) hhead
  case mem_dead =>
    intro tk'
    simp only [List.mem_cons, h.mem_dead tk', hdeleted, htask]
    constructor
    · rintro (rfl | hdel | ⟨p', hp'⟩)
      · exact .inr ⟨p, .inl ⟨rfl, rfl⟩⟩
      · exact .inl hdel
      · exact .inr ⟨p', .inr hp'⟩
    · rintro (hdel | ⟨p', ⟨-, rfl⟩ | hp'⟩)
      · exact .inr (.inl hdel)
      · exact .inl rfl
      · exact .inr (.inr ⟨p', hp'⟩)
  case nodup => exact hdeleted ▸ h.nodup
  case held =>
    intro p' tk' hheld
    rw [hdeleted]
    rcases (htask p' tk').mp hheld with ⟨-, rfl⟩ | hheld
    · exact fun hdel => hlive ((h.mem_dead tk').mpr (.inl hdel))
    · exact h.held p' tk' hheld
  case alone =>
    intro p₁ p₂ tk' h₁ h₂
    rcases (htask p₁ tk').mp h₁ with ⟨rfl, rfl⟩ | h₁
    · rcases (htask p₂ tk').mp h₂ with ⟨rfl, -⟩ | h₂
      · rfl
      · exact absurd h₂ (hnone p₂)
    · rcases (htask p₂ tk').mp h₂ with ⟨rfl, rfl⟩ | h₂
      · exact absurd h₁ (hnone p₁)
      · exact h.alone p₁ p₂ tk' h₁ h₂
  case halted =>
    apply h.halted_of_out hout
    intro p'
    rw [hscheduler]
    exact Scheduler.pc_update fun heq => by cases q <;> rw [heq] <;> rfl
  case within => exact h.within_of_out hout (by rw [hscheduler]; rfl)

theorem Overlay.delete (h : S.Overlay dead) {q : ReleaseLoop} {task : Option TaskPtr}
    (hexit : S.exit p = .delete q task) (hscheduler : T.scheduler = S.scheduler)
    (hT : T.exit = Function.update S.exit p (.empty q))
    (hdeleted : T.deleted = S.deleted ++ task.toList) : T.Overlay dead := by
  have hprocess : S.exit p ≠ .process := by
    rw [hexit]
    exact ReleasePc.noConfusion
  have hout : T.out = S.out := out_update ReleasePc.noConfusion hprocess hT
  have hlocal : ∀ tk, tk ∈ task.toList ↔ (S.exit p).task = some tk := by
    intro tk
    rw [Option.mem_toList, hexit]
    exact Iff.rfl
  have htask : ∀ p' tk, (T.exit p').task = some tk ↔ p' ≠ p ∧ (S.exit p').task = some tk := by
    intro p' tk
    rw [hT]
    by_cases hp : p' = p
    · rw [hp, Function.update_self]
      simp [ReleasePc.task]
    · rw [Function.update_of_ne hp]
      simp [hp]
  constructor
  case coherent =>
    rw [hscheduler, hout]
    exact h.coherent
  case mem_dead =>
    intro tk
    simp only [h.mem_dead tk, hdeleted, htask, List.mem_append, hlocal]
    constructor
    · rintro (hdel | ⟨p', hp'⟩)
      · exact .inl (.inl hdel)
      · by_cases hp : p' = p
        · exact .inl (.inr (hp ▸ hp'))
        · exact .inr ⟨p', hp, hp'⟩
    · rintro ((hdel | hp') | ⟨p', -, hp'⟩)
      · exact .inl hdel
      · exact .inr ⟨p, hp'⟩
      · exact .inr ⟨p', hp'⟩
  case nodup =>
    rw [hdeleted, List.nodup_append]
    refine ⟨h.nodup, by cases task <;> simp, ?_⟩
    rintro tk hdel tk' htk' rfl
    exact h.held p tk ((hlocal tk).mp htk') hdel
  case held =>
    intro p' tk hheld
    obtain ⟨hp, hheld⟩ := (htask p' tk).mp hheld
    rw [hdeleted, List.mem_append, hlocal]
    rintro (hdel | hp')
    · exact h.held p' tk hheld hdel
    · exact hp (h.alone p' p tk hheld hp')
  case alone =>
    intro p₁ p₂ tk h₁ h₂
    exact h.alone p₁ p₂ tk ((htask p₁ tk).mp h₁).2 ((htask p₂ tk).mp h₂).2
  case halted => exact h.halted_of_out hout fun p' => by rw [hscheduler]
  case within => exact h.within_of_out hout (by rw [hscheduler])

theorem Overlay.last (h : S.Overlay dead) (hexit : S.exit p = .last)
    (hscheduler : T.scheduler =
      S.scheduler.setProcesser p { S.scheduler.processers_ p with active_ := false })
    (hT : T.exit = Function.update S.exit p .exited) (hdeleted : T.deleted = S.deleted) :
    T.Overlay dead := by
  have hprocess : S.exit p ≠ .process := by
    rw [hexit]
    exact ReleasePc.noConfusion
  have hout : T.out = S.out := out_update ReleasePc.noConfusion hprocess hT
  have hp : S.out p = true := decide_eq_true hprocess
  have htask := task_update (T := T) (by rw [hexit]; rfl) hT
  constructor
  case coherent =>
    rw [hscheduler, hout]
    exact h.coherent.inactive hp
  case mem_dead =>
    intro tk
    simp only [hdeleted, htask]
    exact h.mem_dead tk
  case nodup => exact hdeleted ▸ h.nodup
  case held =>
    simp only [hdeleted, htask]
    exact h.held
  case alone =>
    simp only [htask]
    exact h.alone
  case halted =>
    apply h.halted_of_out hout
    intro p'
    rw [hscheduler]
    exact Scheduler.pc_update fun heq => by rw [heq]
  case within => exact h.within_of_out hout (by rw [hscheduler]; rfl)

theorem Overlay.release (h : S.Overlay dead) (hs : S.release p = some T) :
    ∃ dead', T.Overlay dead' := by
  have hprocess := (released hs).ne_process
  cases released hs with
  | @empty q hexit =>
      refine ⟨dead, h.of_same rfl rfl (out_update ?_ hprocess rfl) (task_update ?_ rfl)⟩
      · split
        · cases q <;> exact ReleasePc.noConfusion
        · exact ReleasePc.noConfusion
      · rw [hexit]
        split
        · cases q <;> rfl
        · rfl
  | @pop q hexit =>
      cases hhead : ((S.scheduler.processers_ p).releaseQueue q).head? with
      | none =>
          refine ⟨dead, h.of_same ?_ rfl (out_update ReleasePc.noConfusion hprocess rfl)
            (task_update ?_ rfl)⟩
          · rw [Processer.popRelease_eq hhead]
            exact congrArg (fun f => { S.scheduler with processers_ := f })
              (Function.update_eq_self ..)
          · rw [hexit]
            rfl
      | some tk => exact ⟨tk :: dead, h.pop hexit hhead rfl rfl rfl⟩
  | delete hexit => exact ⟨dead, h.delete hexit rfl rfl rfl⟩
  | last hexit => exact ⟨dead, h.last hexit rfl rfl rfl⟩

end Release

section Step

theorem Overlay.step {a : ShutdownStep} (h : S.Overlay dead) (hs : S.step a = some T) :
    ∃ dead', T.Overlay dead' := by
  cases a with
  | scheduler e => exact ⟨dead, h.schedulerStep hs⟩
  | isStop p =>
      obtain ⟨⟨hp, hexit, hreads, -⟩, hs⟩ := Option.ite_none_right_eq_some.mp hs
      cases hs
      exact ⟨dead, h.isStop hp hexit hreads⟩
  | release p => exact h.release hs
  | started dispatcher | dispatcherLoop | stopTrack =>
      obtain ⟨-, hs⟩ := Option.ite_none_right_eq_some.mp hs
      cases hs
      exact ⟨dead, h.of_same rfl rfl rfl fun _ => rfl⟩
  | stop =>
      refine ⟨dead, ?_⟩
      unfold Shutdown.step stopStep at hs
      simp only at hs
      split at hs
      · obtain ⟨-, hs⟩ := Option.ite_none_left_eq_some.mp hs
        cases hs
        exact h.of_same rfl rfl rfl fun _ => rfl
      · obtain ⟨-, hs⟩ := Option.ite_none_right_eq_some.mp hs
        cases hs
        exact h.of_same rfl rfl rfl fun _ => rfl
      · split at hs
        · obtain ⟨-, hs⟩ := Option.ite_none_right_eq_some.mp hs
          cases hs
          exact h.of_same rfl rfl rfl fun _ => rfl
        · cases hs
          exact h.of_same rfl rfl rfl fun _ => rfl
      · cases hs

end Step

end Shutdown

end CppGo.Scheduling
