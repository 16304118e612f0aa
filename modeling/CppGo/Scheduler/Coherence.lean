import CppGo.Scheduler.Places

/-!
# The running task of a Processer

`runningTask_` and `nextTask_` are pointers into a queue that the dispatcher and the wake-ups
change.  What holds of `runningTask_` depends on where the thread is in `Process`.
-/

namespace CppGo.Scheduling

open CppGo.Lib

open scoped List

/-- `runningTask_` is null there. -/
def ProcessPc.Between : ProcessPc → Prop
  | front | addEmpty _ | addPop _ | addPush _ _ | frontAgain | waitLoop => True
  | _ => False

/-- The task has left `SuspendBySelfIO`, or it has switched out. -/
def ProcessPc.Leaving (tk : TaskPtr) : ProcessPc → Prop
  | suspended tk' => tk' = tk
  | switched | block | runnable => True
  | _ => False

namespace Scheduler

inductive Attached (s : Scheduler) (p : Nat) (tk : TaskPtr) : Prop
  | queued (hmem : tk ∈ (s.processers_ p).runnableQueue_)
      (hstate : (s.task tk).state_ = .runnable)
  | suspended (hmem : tk ∈ s.suspended)
  | woken (hmem : tk ∈ s.shared .waking)

/-- What holds of `runningTask_` at each point of `Process`. -/
inductive Phase (s : Scheduler) (p : Nat) : ProcessPc → Option TaskPtr → Prop
  | between {pc : ProcessPc} (hpc : pc.Between) : Phase s p pc none
  | picked {o : Option TaskPtr}
      (hmem : ∀ tk, o = some tk → tk ∈ (s.processers_ p).runnableQueue_) : Phase s p .loop o
  | exec {tk : TaskPtr} (hmem : tk ∈ (s.processers_ p).runnableQueue_)
      (hstate : (s.task tk).state_ = .runnable) (hhome : (s.task tk).proc_ = some p) :
      Phase s p (.exec tk) (some tk)
  | suspending {tk : TaskPtr} (hmem : tk ∈ (s.processers_ p).runnableQueue_)
      (hstate : (s.task tk).state_ = .block) (hhome : (s.task tk).proc_ = some p) :
      Phase s p (.suspending tk) (some tk)
  | leaving {pc : ProcessPc} {tk : TaskPtr} (hpc : pc.Leaving tk)
      (hhome : (s.task tk).proc_ = some p) (hat : s.Attached p tk) : Phase s p pc (some tk)
  | ended {pc : ProcessPc} {tk : TaskPtr} (hpc : pc = .switched ∨ pc = .doneNext)
      (hmem : tk ∈ (s.processers_ p).runnableQueue_) (hstate : (s.task tk).state_ = .done) :
      Phase s p pc (some tk)
  | erasing {tk : TaskPtr} (hmem : tk ∈ (s.processers_ p).runnableQueue_)
      (hnext : (s.processers_ p).nextTask_ ≠ some tk) (hstate : (s.task tk).state_ = .done) :
      Phase s p .doneErase (some tk)
  | erased {tk : TaskPtr} (hstate : (s.task tk).state_ = .done) :
      Phase s p .doneAdvance (some tk)

/-- A suspended task is blocked, and it knows its Processer. -/
def Halted (s : Scheduler) (tk : TaskPtr) : Prop :=
  (s.task tk).state_ = .block ∧ ∃ p, (s.task tk).proc_ = some p

structure Coherent (s : Scheduler) : Prop where
  sound : s.fault = false
  tidy : s.Tidy
  phase : ∀ p, s.Phase p (s.processers_ p).pc (s.processers_ p).runningTask_
  next : ∀ p tk, (s.processers_ p).nextTask_ = some tk → tk ∈ (s.processers_ p).runnableQueue_
  suspended : ∀ tk ∈ s.suspended, s.Halted tk
  waking : ∀ w ∈ s.waking, (s.task w.1).state_ = .runnable ∧ (s.task w.1).proc_ = some w.2

variable {s t : Scheduler} {p p' : Nat} {tk : TaskPtr} {x : Processer} {pc : ProcessPc}
  {o : Option TaskPtr}

section Frame

structure Frame (s t : Scheduler) (p : Nat) : Prop where
  pc : (t.processers_ p).pc = (s.processers_ p).pc
  running : (t.processers_ p).runningTask_ = (s.processers_ p).runningTask_
  next : (t.processers_ p).nextTask_ = (s.processers_ p).nextTask_
  queue : ∀ tk, (s.processers_ p).runningTask_ = some tk ∨ (s.processers_ p).nextTask_ = some tk →
    tk ∈ (s.processers_ p).runnableQueue_ → tk ∈ (t.processers_ p).runnableQueue_
  task : ∀ tk, (s.processers_ p).runningTask_ = some tk →
    tk ∈ (s.processers_ p).runnableQueue_ ∨ tk ∈ (s.processers_ p).held .finished →
    t.task tk = s.task tk
  home : ∀ tk, (s.processers_ p).runningTask_ = some tk → (t.task tk).proc_ = (s.task tk).proc_
  attached : ∀ tk, (s.processers_ p).runningTask_ = some tk → (s.task tk).proc_ = some p →
    s.Attached p tk → t.Attached p tk

theorem Attached.transfer (hat : s.Attached p tk) (htask : t.task tk = s.task tk)
    (hqueue : tk ∈ (s.processers_ p).runnableQueue_ → tk ∈ (t.processers_ p).runnableQueue_)
    (hsuspended : tk ∈ s.suspended → tk ∈ t.suspended)
    (hwoken : tk ∈ s.shared .waking → t.Attached p tk) : t.Attached p tk := by
  cases hat with
  | queued hmem hstate => exact .queued (hqueue hmem) (htask ▸ hstate)
  | suspended hmem => exact .suspended (hsuspended hmem)
  | woken hmem => exact hwoken hmem

theorem Frame.phase (hf : Frame s t p)
    (h : s.Phase p (s.processers_ p).pc (s.processers_ p).runningTask_) :
    t.Phase p (t.processers_ p).pc (t.processers_ p).runningTask_ := by
  rw [hf.pc, hf.running]
  have hqueue := fun tk hrun => hf.queue tk (.inl hrun)
  have htask := hf.task
  have hhome' := hf.home
  have hattached := hf.attached
  have hfinished : (s.processers_ p).pc = .doneAdvance →
      ∀ tk, (s.processers_ p).runningTask_ = some tk → tk ∈ (s.processers_ p).held .finished := by
    intro hpc tk hrun
    rw [Processer.held, if_pos hpc, hrun]
    exact List.mem_singleton_self tk
  revert h hqueue htask hhome' hattached hfinished
  generalize (s.processers_ p).pc = pc
  generalize (s.processers_ p).runningTask_ = o
  intro h hqueue htask hhome' hattached hfinished
  cases h with
  | between hpc => exact .between hpc
  | picked hmem => exact .picked fun tk hrun => hqueue tk hrun (hmem tk hrun)
  | exec hmem hstate hhome =>
      have heq := htask _ rfl (.inl hmem)
      exact .exec (hqueue _ rfl hmem) (heq ▸ hstate) (heq ▸ hhome)
  | suspending hmem hstate hhome =>
      have heq := htask _ rfl (.inl hmem)
      exact .suspending (hqueue _ rfl hmem) (heq ▸ hstate) (heq ▸ hhome)
  | leaving hpc hhome hat =>
      exact .leaving hpc ((hhome' _ rfl).trans hhome) (hattached _ rfl hhome hat)
  | ended hpc hmem hstate =>
      exact .ended hpc (hqueue _ rfl hmem) (htask _ rfl (.inl hmem) ▸ hstate)
  | erasing hmem hnext hstate =>
      exact .erasing (hqueue _ rfl hmem) (hf.next ▸ hnext) (htask _ rfl (.inl hmem) ▸ hstate)
  | erased hstate =>
      exact .erased (htask _ rfl (.inr (hfinished rfl _ rfl)) ▸ hstate)

theorem Frame.next_mem (hf : Frame s t p)
    (h : ∀ tk, (s.processers_ p).nextTask_ = some tk → tk ∈ (s.processers_ p).runnableQueue_)
    (tk : TaskPtr) (htk : (t.processers_ p).nextTask_ = some tk) :
    tk ∈ (t.processers_ p).runnableQueue_ := by
  rw [hf.next] at htk
  exact hf.queue tk (.inr htk) (h tk htk)

theorem Coherent.of_frame (h : s.Coherent) (hframe : ∀ p, Frame s t p) (hsound : t.fault = false)
    (htidy : t.Tidy) (hsuspended : ∀ tk ∈ t.suspended, t.Halted tk)
    (hwaking : ∀ w ∈ t.waking, (t.task w.1).state_ = .runnable ∧ (t.task w.1).proc_ = some w.2) :
    t.Coherent where
  sound := hsound
  tidy := htidy
  phase p := (hframe p).phase (h.phase p)
  next p := (hframe p).next_mem (h.next p)
  suspended := hsuspended
  waking := hwaking

end Frame

section Running

theorem Attached.place (h : s.Attached p tk) :
    tk ∈ (s.processers_ p).runnableQueue_ ∨ ∃ g, g ∈ [Shared.suspended, .waking] ∧
      tk ∈ s.shared g := by
  cases h with
  | queued hmem _ => exact .inl hmem
  | suspended hmem => exact .inr ⟨.suspended, by simp, hmem⟩
  | woken hmem => exact .inr ⟨.waking, by simp, hmem⟩

theorem Coherent.place (h : s.Coherent) (hrun : (s.processers_ p).runningTask_ = some tk) :
    (∃ q, q ∈ [Hold.runnable, .finished] ∧ tk ∈ s.contents (.processer p q)) ∨
      ∃ g, g ∈ [Shared.suspended, .waking] ∧ tk ∈ s.shared g := by
  have hphase := h.phase p
  have hfinished : (s.processers_ p).pc = .doneAdvance →
      tk ∈ s.contents (.processer p .finished) := by
    intro hpc
    show tk ∈ (s.processers_ p).held .finished
    rw [Processer.held, if_pos hpc, hrun]
    exact List.mem_singleton_self tk
  rw [hrun] at hphase
  revert hphase hfinished
  generalize (s.processers_ p).pc = pc
  intro hphase hfinished
  have hqueued : tk ∈ (s.processers_ p).runnableQueue_ →
      ∃ q, q ∈ [Hold.runnable, .finished] ∧ tk ∈ s.contents (.processer p q) :=
    fun hmem => ⟨.runnable, by simp, hmem⟩
  cases hphase with
  | picked hmem => exact .inl (hqueued (hmem _ rfl))
  | exec hmem _ _ | suspending hmem _ _ | ended _ hmem _ | erasing hmem _ _ =>
      exact .inl (hqueued hmem)
  | leaving _ _ hat => exact hat.place.imp_left hqueued
  | erased _ => exact .inl ⟨.finished, by simp, hfinished rfl⟩

theorem Coherent.lt_allocated (h : s.Coherent)
    (hrun : (s.processers_ p).runningTask_ = some tk) : tk < s.allocated := by
  rcases h.place hrun with ⟨q, _, hmem⟩ | ⟨g, _, hmem⟩
  · exact (h.tidy.mem_iff tk).mpr ⟨_, hmem⟩
  · exact (h.tidy.mem_iff tk).mpr ⟨.shared g, hmem⟩

theorem Coherent.not_held (h : s.Coherent) (hp : p' ≠ p)
    (hrun : (s.processers_ p').runningTask_ = some tk) (q : Hold) :
    tk ∉ (s.processers_ p).held q := by
  intro hmem
  have hhere : tk ∈ s.contents (.processer p q) := hmem
  rcases h.place hrun with ⟨q', _, hmem'⟩ | ⟨g, _, hmem'⟩
  · have heq := h.tidy.place_unique hmem' hhere
    injection heq with heq
    exact hp heq
  · exact h.tidy.not_shared hmem hmem'

theorem Coherent.owns_running (h : s.Coherent) : s.owns p (s.processers_ p).runningTask_ = true := by
  cases hrun : (s.processers_ p).runningTask_ with
  | none => rfl
  | some tk =>
      rcases h.place hrun with ⟨q, hq, hmem⟩ | ⟨g, hg, hmem⟩
      · rw [List.mem_cons, List.mem_singleton] at hq
        rcases hq with rfl | rfl
        · exact owns_of_mem hmem
        · exact owns_of_not_linked (h.tidy.not_linked hmem (fun hlist => hlist rfl))
      · have hthere : tk ∈ s.contents (.shared g) := hmem
        apply owns_of_not_linked (h.tidy.not_linked hthere ?_)
        rw [List.mem_cons, List.mem_singleton] at hg
        rcases hg with rfl | rfl <;> simp [Place.IsList]

theorem Coherent.owns_next (h : s.Coherent) : s.owns p (s.processers_ p).nextTask_ = true := by
  cases hnext : (s.processers_ p).nextTask_ with
  | none => rfl
  | some tk => exact owns_of_mem (h.next p tk hnext)

end Running

section Build

/-- A step of the thread of `p`, which may change the tasks that are at `p` and suspend
one of them. -/
theorem Coherent.advance {new : List TaskPtr} (h : s.Coherent)
    (hproc : t.processers_ = Function.update s.processers_ p x)
    (htask : ∀ tk, (∀ q, tk ∉ (s.processers_ p).held q) → t.task tk = s.task tk)
    (hsuspended : t.suspended = s.suspended ++ new) (hwaking : t.waking = s.waking)
    (hnew : ∀ tk ∈ new, t.Halted tk) (hsound : t.fault = false) (htidy : t.Tidy)
    (hphase : t.Phase p x.pc x.runningTask_)
    (hnext : ∀ tk, x.nextTask_ = some tk → tk ∈ x.runnableQueue_) : t.Coherent := by
  have hself : t.processers_ p = x := by rw [hproc, Function.update_self]
  have hothers : ∀ p' ≠ p, t.processers_ p' = s.processers_ p' := fun p' hp => by
    rw [hproc, Function.update_of_ne hp]
  have hshared : ∀ g tk, tk ∈ s.shared g → t.task tk = s.task tk := by
    intro g tk hmem
    apply htask
    intro q hq
    exact h.tidy.not_shared hq hmem
  have hframe : ∀ p' ≠ p, Frame s t p' := by
    intro p' hp
    have heq := hothers p' hp
    have hsame : ∀ tk, (s.processers_ p').runningTask_ = some tk → t.task tk = s.task tk :=
      fun tk hrun => htask tk (h.not_held hp hrun)
    constructor
    case pc => rw [heq]
    case running => rw [heq]
    case next => rw [heq]
    case queue =>
      intro tk _ hmem
      rw [heq]
      exact hmem
    case task =>
      intro tk hrun _
      exact hsame tk hrun
    case home =>
      intro tk hrun
      rw [hsame tk hrun]
    case attached =>
      intro tk hrun _ hat
      apply hat.transfer (hsame tk hrun)
      · rw [heq]
        exact id
      · rw [hsuspended]
        exact List.mem_append_left _
      · rw [shared, ← hwaking]
        exact .woken
  constructor
  case sound => exact hsound
  case tidy => exact htidy
  case phase =>
    intro p'
    by_cases hp : p' = p
    · subst hp
      rw [hself]
      exact hphase
    · exact (hframe p' hp).phase (h.phase p')
  case next =>
    intro p'
    by_cases hp : p' = p
    · subst hp
      rw [hself]
      exact hnext
    · exact (hframe p' hp).next_mem (h.next p')
  case suspended =>
    intro tk hmem
    rw [hsuspended, List.mem_append] at hmem
    rcases hmem with hmem | hmem
    · rw [Halted, hshared .suspended tk hmem]
      exact h.suspended tk hmem
    · exact hnew tk hmem
  case waking =>
    intro w hw
    rw [hwaking] at hw
    rw [hshared .waking w.1 (List.mem_map_of_mem hw)]
    exact h.waking w hw

/-- A step of another thread, which may change the queues of `p` but none of the tasks. -/
theorem Coherent.aside (h : s.Coherent)
    (hproc : t.processers_ = Function.update s.processers_ p x)
    (hpc : x.pc = (s.processers_ p).pc)
    (hrunning : x.runningTask_ = (s.processers_ p).runningTask_)
    (hnext : x.nextTask_ = (s.processers_ p).nextTask_)
    (hqueue : ∀ tk, (s.processers_ p).runningTask_ = some tk ∨
      (s.processers_ p).nextTask_ = some tk → tk ∈ (s.processers_ p).runnableQueue_ →
      tk ∈ x.runnableQueue_)
    (htask : ∀ tk < s.allocated, t.task tk = s.task tk)
    (hsuspended : t.suspended = s.suspended) (hwaking : t.waking = s.waking)
    (hsound : t.fault = false) (htidy : t.Tidy) : t.Coherent := by
  have hself : t.processers_ p = x := by rw [hproc, Function.update_self]
  have hothers : ∀ p' ≠ p, t.processers_ p' = s.processers_ p' := fun p' hp => by
    rw [hproc, Function.update_of_ne hp]
  have hkept : ∀ p' tk, (s.processers_ p').runningTask_ = some tk ∨
      (s.processers_ p').nextTask_ = some tk → tk ∈ (s.processers_ p').runnableQueue_ →
      tk ∈ (t.processers_ p').runnableQueue_ := by
    intro p' tk hptr hmem
    by_cases hp : p' = p
    · subst hp
      rw [hself]
      exact hqueue tk hptr hmem
    · rw [hothers p' hp]
      exact hmem
  have hframe : ∀ p', Frame s t p' := by
    intro p'
    have hsame : ∀ tk, (s.processers_ p').runningTask_ = some tk → t.task tk = s.task tk :=
      fun tk hrun => htask tk (h.lt_allocated hrun)
    have hfields : (t.processers_ p').pc = (s.processers_ p').pc ∧
        (t.processers_ p').runningTask_ = (s.processers_ p').runningTask_ ∧
        (t.processers_ p').nextTask_ = (s.processers_ p').nextTask_ := by
      by_cases hp : p' = p
      · subst hp
        rw [hself]
        exact ⟨hpc, hrunning, hnext⟩
      · rw [hothers p' hp]
        exact ⟨rfl, rfl, rfl⟩
    constructor
    case pc => exact hfields.1
    case running => exact hfields.2.1
    case next => exact hfields.2.2
    case queue => exact hkept p'
    case task =>
      intro tk hrun _
      exact hsame tk hrun
    case home =>
      intro tk hrun
      rw [hsame tk hrun]
    case attached =>
      intro tk hrun _ hat
      apply hat.transfer (hsame tk hrun) (hkept p' tk (.inl hrun))
      · rw [hsuspended]
        exact id
      · rw [shared, ← hwaking]
        exact .woken
  have hshared : ∀ g tk, tk ∈ s.shared g → t.task tk = s.task tk := fun g tk hmem =>
    htask tk ((h.tidy.mem_iff tk).mpr ⟨.shared g, hmem⟩)
  apply h.of_frame hframe hsound htidy
  · intro tk hmem
    rw [hsuspended] at hmem
    rw [Halted, hshared .suspended tk hmem]
    exact h.suspended tk hmem
  · intro w hw
    rw [hwaking] at hw
    rw [hshared .waking w.1 (List.mem_map_of_mem hw)]
    exact h.waking w hw

end Build

end Scheduler

end CppGo.Scheduling
