import CppGo.Lib.Observer
import CppGo.Scheduler.SleepCalls
import CppGo.Scheduler.TaskCache

/-!
# The life of a task

What a scheduler is for, as one task sees it: a task that has been created is resumed by one
Processer at a time and never while it is asleep, a wake-up ends one suspension, and a task
that has ended is not resumed again.  The steps of the scheduler show each task such a life.
-/

namespace CppGo.Scheduling

open CppGo.Lib

inductive LifeEvent
  | create
  /-- `SwapIn` by the Processer `p` -/
  | resume (p : Nat)
  /-- the task has left `runnableQueue_` -/
  | suspend
  | wake
  /-- the task is back in `Process` and has not ended -/
  | switchOut
  | finish
  | recycle
deriving DecidableEq, Repr

/-- `on` is the Processer that executes the task. -/
inductive Life
  | free
  | alive (on : Option Nat) (asleep : Bool)
  | ended
deriving DecidableEq, Repr

namespace Life

def step : Life → LifeEvent → Option Life
  | free, .create => some (alive none false)
  | alive none false, .resume p => some (alive (some p) false)
  | alive (some p) false, .suspend => some (alive (some p) true)
  | alive on true, .wake => some (alive on false)
  | alive (some _) asleep, .switchOut => some (alive none asleep)
  | alive (some _) false, .finish => some ended
  | ended, .recycle => some free
  | _, _ => none

/-- Created or switched out, and to be resumed. -/
def waiting : Life → Nat
  | alive on _ => if on = none then 1 else 0
  | _ => 0

def sleeping : Life → Nat
  | alive _ asleep => asleep.toNat
  | _ => 0

def isResume : LifeEvent → Bool
  | .resume _ => true
  | _ => false

structure Accounts (l : Life) (es : List LifeEvent) (l' : Life) : Prop where
  resumes : es.countP isResume + l'.waiting = es.count .create + es.count .switchOut + l.waiting
  suspends : es.count .suspend + l.sleeping = es.count .wake + l'.sleeping

theorem accounts_step {l l' : Life} {e : LifeEvent} (h : l.step e = some l') :
    Accounts l [e] l' := by
  unfold step at h
  split at h <;> cases h
  all_goals
    constructor
    · simp [waiting, isResume]
    · simp [sleeping]

/-- Every resumption is due to a creation or to a switch-out, and every wake-up to a
suspension. -/
theorem accounts_run {l l' : Life} {es : List LifeEvent}
    (h : Machine.run step Machine.Free l es = some l') : Accounts l es l' := by
  induction es generalizing l with
  | nil =>
      cases h
      exact ⟨by simp, by simp⟩
  | cons e es ih =>
      obtain ⟨-, m, hm, hrun⟩ := Machine.run_cons_eq_some.mp h
      have hhead := accounts_step hm
      have htail := ih hrun
      rw [← List.singleton_append]
      constructor
      · have := hhead.resumes
        have := htail.resumes
        rw [List.countP_append, List.count_append, List.count_append]
        omega
      · have := hhead.suspends
        have := htail.suspends
        rw [List.count_append, List.count_append]
        omega

theorem run_switchOut (p : Nat) (asleep : Bool) :
    Machine.run step Machine.Free (alive (some p) asleep) [.switchOut] =
      some (alive none asleep) := by
  cases asleep <;> rfl

end Life

/-- The points of `Process` behind the end of a task, up to `Add2FreeTaskList`. -/
def ProcessPc.Ending : ProcessPc → Prop
  | switched | doneNext | doneErase | doneAdvance => True
  | _ => False

def Processer.Ends (x : Processer) (tk : TaskPtr) : Prop :=
  x.runningTask_ = some tk ∧ x.pc.Ending

namespace Scheduler

def createdTask (s : Scheduler) (stack_size : Int) : TaskPtr :=
  ((s.getFreeTaskList stack_size).getD (s.newTask stack_size)).2

def lifeOf (tk : TaskPtr) (s : Scheduler) : SchedulerStep → List LifeEvent
  | .createTask stack_size => if s.createdTask stack_size = tk then [.create] else []
  | .process p => match (s.processers_ p).pc with
    | .loop => if (s.processers_ p).runningTask_ = some tk then [.resume p] else []
    | .suspending tk' => if tk' = tk then [.suspend] else []
    | .suspended tk' => if tk' = tk then [.switchOut] else []
    | .doneAdvance => if (s.processers_ p).runningTask_ = some tk then [.recycle] else []
    | _ => []
  | .yield p => if (s.processers_ p).pc = .exec tk then [.switchOut] else []
  | .finish p => if (s.processers_ p).pc = .exec tk then [.finish] else []
  | .wakeupBySelfIo tk' => if tk' = tk then [.wake] else []
  | _ => []

/-- The task has not been created, or it is in `free_task_map_`. -/
def Free (s : Scheduler) (tk : TaskPtr) : Prop :=
  s.allocated ≤ tk ∨ tk ∈ s.free_task_map_.values

inductive Lives (s : Scheduler) (tk : TaskPtr) : Life → Prop
  | free (hfree : s.Free tk) : Lives s tk .free
  | alive {on : Option Nat} (hlive : ¬ s.Free tk) (hstate : (s.task tk).state_ ≠ .done)
      (hon : ∀ p, on = some p ↔ s.Executes p tk) :
      Lives s tk (.alive on (decide (tk ∈ s.suspended)))
  | ended {p : Nat} (hlive : ¬ s.Free tk) (hstate : (s.task tk).state_ = .done)
      (hends : (s.processers_ p).Ends tk) : Lives s tk .ended

def Allows (s t : Scheduler) (tk : TaskPtr) (es : List LifeEvent) : Prop :=
  ∀ l, s.Lives tk l → ∃ l', Machine.run Life.step Machine.Free l es = some l' ∧ t.Lives tk l'

variable {s t : Scheduler} {p p' : Nat} {tk tk' : TaskPtr} {x : Processer} {l : Life}
  {e : SchedulerStep}

section Unmoved

structure Unmoved (s t : Scheduler) (tk : TaskPtr) : Prop where
  executes : ∀ p, (t.processers_ p).pc.executing = some tk ↔
    (s.processers_ p).pc.executing = some tk
  ends : ∀ p, (s.task tk).state_ = .done → (s.processers_ p).Ends tk → (t.processers_ p).Ends tk
  suspended : tk ∈ t.suspended ↔ tk ∈ s.suspended
  state : ¬ s.Free tk → ((t.task tk).state_ = .done ↔ (s.task tk).state_ = .done)
  free : t.Free tk ↔ s.Free tk

theorem Unmoved.lives (h : Unmoved s t tk) (hl : s.Lives tk l) : t.Lives tk l := by
  cases hl with
  | free hfree => exact .free (h.free.mpr hfree)
  | alive hlive hstate hon =>
      rw [← decide_eq_decide.mpr h.suspended]
      refine .alive (mt h.free.mp hlive) (mt (h.state hlive).mp hstate) fun p => ?_
      rw [hon, executes_iff, executes_iff, h.executes]
  | ended hlive hstate hends =>
      exact .ended (mt h.free.mp hlive) ((h.state hlive).mpr hstate) (h.ends _ hstate hends)

theorem Unmoved.allows (h : Unmoved s t tk) : s.Allows t tk [] :=
  fun l hl => ⟨l, rfl, h.lives hl⟩

theorem unmoved_of_update (hproc : t.processers_ = Function.update s.processers_ p x)
    (hexec : x.pc.executing = some tk ↔ (s.processers_ p).pc.executing = some tk)
    (hends : (s.task tk).state_ = .done → (s.processers_ p).Ends tk → x.Ends tk)
    (hsuspended : tk ∈ t.suspended ↔ tk ∈ s.suspended)
    (hstate : ¬ s.Free tk → ((t.task tk).state_ = .done ↔ (s.task tk).state_ = .done))
    (hfree : t.Free tk ↔ s.Free tk) : Unmoved s t tk := by
  refine ⟨fun q => ?_, fun q hdone hq => ?_, hsuspended, hstate, hfree⟩
  · by_cases hqp : q = p
    · rw [hqp, hproc, Function.update_self]
      exact hexec
    · rw [hproc, Function.update_of_ne hqp]
  · by_cases hqp : q = p
    · subst hqp
      rw [hproc, Function.update_self]
      exact hends hdone hq
    · rw [hproc, Function.update_of_ne hqp]
      exact hq

theorem unmoved_setProcesser (hexec : x.pc.executing = (s.processers_ p).pc.executing)
    (hends : (s.task tk).state_ = .done → (s.processers_ p).Ends tk → x.Ends tk) :
    Unmoved s (s.setProcesser p x) tk :=
  unmoved_of_update rfl (by rw [hexec]) hends .rfl (fun _ => .rfl) .rfl

theorem unmoved_outside (hpc : ∀ p, (t.processers_ p).pc = (s.processers_ p).pc)
    (hrun : ∀ p, (t.processers_ p).runningTask_ = (s.processers_ p).runningTask_)
    (hsuspended : tk ∈ t.suspended ↔ tk ∈ s.suspended)
    (hstate : ¬ s.Free tk → ((t.task tk).state_ = .done ↔ (s.task tk).state_ = .done))
    (hfree : t.Free tk ↔ s.Free tk) : Unmoved s t tk := by
  refine ⟨fun p => by rw [hpc], fun p _ hends => ?_, hsuspended, hstate, hfree⟩
  unfold Processer.Ends
  rw [hpc, hrun]
  exact hends

end Unmoved

section Places

theorem Coherent.not_free_of_mem {i : Place} (h : s.Coherent) (hmem : tk ∈ s.contents i)
    (hi : i ≠ .shared .free) : ¬ s.Free tk := by
  rintro (hle | hfree)
  · have hlt : tk < s.allocated := (h.tidy.mem_iff tk).mpr ⟨i, hmem⟩
    exact Nat.not_lt.mpr hle hlt
  · exact h.not_free hmem hi hfree

theorem Coherent.held_of_ends (h : s.Coherent) (hends : (s.processers_ p).Ends tk)
    (hstate : (s.task tk).state_ = .done) : ∃ q, tk ∈ (s.processers_ p).held q := by
  have hphase := h.phase p
  obtain ⟨hrun, hpc⟩ := hends
  have hfinished : (s.processers_ p).pc = .doneAdvance → tk ∈ (s.processers_ p).held .finished := by
    intro hadvance
    rw [Processer.held, if_pos hadvance, hrun]
    exact List.mem_singleton_self tk
  rw [hrun] at hphase
  generalize (s.processers_ p).pc = pc at hphase hpc hfinished
  cases hphase with
  | picked _ | exec _ _ _ | suspending _ _ _ => exact hpc.elim
  | ended _ hmem _ | erasing hmem _ _ => exact ⟨.runnable, hmem⟩
  | erased _ => exact ⟨.finished, hfinished rfl⟩
  | leaving _ _ hat =>
      cases hat with
      | queued _ hstate' => cases hstate.symm.trans hstate'
      | suspended hmem => cases hstate.symm.trans (h.suspended tk hmem).1
      | woken hmem =>
          obtain ⟨w, hw, rfl⟩ := List.mem_map.mp hmem
          cases hstate.symm.trans (h.waking w hw).1

theorem Coherent.lives_executing (h : s.Coherent) (hexec : s.Executes p tk) (hl : s.Lives tk l) :
    ¬ s.Free tk ∧ (s.task tk).state_ ≠ .done ∧ (∀ p', s.Executes p' tk ↔ p' = p) ∧
      l = .alive (some p) (decide (tk ∈ s.suspended)) := by
  obtain ⟨hrun, _, hplace⟩ := h.executing hexec
  have hlive : ¬ s.Free tk := by
    rcases hplace with hmem | hmem | hmem
    · exact h.not_free_of_mem (i := .processer p .runnable) hmem processer_ne_shared
    · exact h.not_free_of_mem (i := .shared .suspended) hmem (by simp)
    · exact h.not_free_of_mem (i := .shared .waking) hmem (by simp)
  cases hl with
  | free hfree => exact absurd hfree hlive
  | alive _ hstate hon =>
      have hp := (hon p).mpr hexec
      subst hp
      refine ⟨hlive, hstate, fun p' => ?_, rfl⟩
      rw [← hon, Option.some.injEq, eq_comm]
  | @ended p' _ hstate hends =>
      obtain ⟨q, hheld⟩ := h.held_of_ends hends hstate
      by_cases hp : p = p'
      · subst hp
        rcases hexec with hpc | hpc | hpc <;>
          · have hpc' := hends.2
            rw [hpc] at hpc'
            exact hpc'.elim
      · exact absurd hheld (h.not_held hp hrun q)

theorem Coherent.lives_waiting (h : s.Coherent) (hmem : tk ∈ (s.processers_ p).runnableQueue_)
    (hpc : (s.processers_ p).pc = .loop) (hl : s.Lives tk l) :
    ¬ s.Free tk ∧ (∀ p', ¬ s.Executes p' tk) ∧ tk ∉ s.suspended ∧ l = .alive none false := by
  have hheld : tk ∈ (s.processers_ p).held .runnable := hmem
  have hlive := h.not_free_of_mem (i := .processer p .runnable) hmem processer_ne_shared
  have hawake : tk ∉ s.suspended := h.tidy.not_shared (g := .suspended) hheld
  have hother : ∀ p' ≠ p, (s.processers_ p').runningTask_ ≠ some tk := fun p' hp hrun =>
    h.not_held hp hrun .runnable hheld
  have hout : ∀ p', ¬ s.Executes p' tk := by
    intro p' hexec
    by_cases hp : p' = p
    · subst hp
      rw [executes_iff, hpc] at hexec
      cases hexec
    · exact hother p' hp (h.executing hexec).1
  refine ⟨hlive, hout, hawake, ?_⟩
  cases hl with
  | free hfree => exact absurd hfree hlive
  | @alive on _ _ hon =>
      have hnone : on = none := by
        cases on with
        | none => rfl
        | some p' => exact absurd ((hon p').mp rfl) (hout p')
      rw [hnone, decide_eq_false hawake]
  | @ended p' _ _ hends =>
      by_cases hp : p' = p
      · subst hp
        have hpc' := hends.2
        rw [hpc] at hpc'
        exact hpc'.elim
      · exact absurd hends.1 (hother p' hp)

end Places

section Steps

theorem task_setTask_of_ne {r : Task} (htk : tk' ≠ tk) : (s.setTask tk' r).task tk = s.task tk :=
  Function.update_of_ne (Ne.symm htk) _ _

theorem executes_update (hproc : t.processers_ = Function.update s.processers_ p x) :
    t.Executes p' tk ↔ if p' = p then x.pc.executing = some tk else s.Executes p' tk := by
  rw [executes_iff, hproc]
  split
  · rename_i hp
    rw [hp, Function.update_self]
  · rename_i hp
    rw [Function.update_of_ne hp, executes_iff]

theorem unmoved_of_ne (htk : tk' ≠ tk)
    (hproc : t.processers_ = Function.update s.processers_ p x)
    (hold : (s.processers_ p).pc.executing = none ∨ (s.processers_ p).pc.executing = some tk')
    (hnew : x.pc.executing = none ∨ x.pc.executing = some tk')
    (hends : ¬ (s.processers_ p).Ends tk) (hsuspended : tk ∈ t.suspended ↔ tk ∈ s.suspended)
    (htask : t.task tk = s.task tk) (hfree : t.Free tk ↔ s.Free tk) : Unmoved s t tk := by
  refine unmoved_of_update hproc ?_ (fun _ h => absurd h hends) hsuspended ?_ hfree
  · rcases hold with hold | hold <;> rcases hnew with hnew | hnew <;> simp [hold, hnew, htk]
  · intro _
    rw [htask]

theorem not_ends_of_pc (hpc : ¬ (s.processers_ p).pc.Ending) : ¬ (s.processers_ p).Ends tk :=
  fun hends => hpc hends.2

theorem allows_swapIn (h : s.Coherent) (hpc : (s.processers_ p).pc = .loop)
    (hrun : (s.processers_ p).runningTask_ = some tk') :
    s.Allows (s.swapIn p tk') tk (if tk' = tk then [.resume p] else []) := by
  by_cases htk : tk' = tk
  · subst htk
    intro l hl
    obtain ⟨hlive, hout, hawake, rfl⟩ := h.lives_waiting (h.picked hpc hrun) hpc hl
    rw [if_pos rfl]
    refine ⟨.alive (some p) false, rfl, ?_⟩
    rw [← decide_eq_false hawake]
    refine .alive hlive (by simp [swapIn]) fun p' => ?_
    rw [executes_update (s := s) (p := p) rfl]
    by_cases hp : p' = p
    · simp [hp, ProcessPc.executing]
    · simp [hp, Ne.symm hp, hout p']
  · rw [if_neg htk]
    apply Unmoved.allows
    refine unmoved_of_ne htk rfl (.inl (by rw [hpc]; rfl)) (.inr rfl)
      (not_ends_of_pc (by rw [hpc]; exact id)) .rfl (task_setTask_of_ne htk) .rfl

theorem lives_left {o : Option TaskPtr} (hproc : t.processers_ = Function.update s.processers_ p x)
    (hexec : ∀ p', s.Executes p' tk ↔ p' = p) (hlive : ¬ t.Free tk)
    (hstate : (t.task tk).state_ ≠ .done) (hx : x.pc.executing = o) (ho : o = none ∨ o = some tk) :
    t.Lives tk (.alive (if o = none then none else some p) (decide (tk ∈ t.suspended))) := by
  refine .alive hlive hstate fun p' => ?_
  rw [executes_update hproc, hexec, hx]
  by_cases hp : p' = p
  · rcases ho with rfl | rfl <;> simp [hp]
  · rcases ho with rfl | rfl <;> simp [hp, Ne.symm hp]

theorem allows_suspendErase (h : s.Coherent) (hpc : (s.processers_ p).pc = .suspending tk') :
    s.Allows (s.suspendErase p tk') tk (if tk' = tk then [.suspend] else []) := by
  by_cases htk : tk' = tk
  · subst htk
    intro l hl
    have hheld : tk' ∈ (s.processers_ p).held .runnable := (h.suspending hpc).2.1
    obtain ⟨hlive, hstate, hexec, rfl⟩ := h.lives_executing (.inr (.inl hpc)) hl
    have hawake : tk' ∉ s.suspended := h.tidy.not_shared (g := .suspended) hheld
    rw [if_pos rfl, decide_eq_false hawake]
    refine ⟨.alive (some p) true, rfl, ?_⟩
    have hasleep : tk' ∈ (s.suspendErase p tk').suspended := by simp [suspendErase]
    have hproc : (s.suspendErase p tk').processers_ = Function.update s.processers_ p _ := rfl
    have hlives := lives_left hproc hexec hlive hstate rfl (.inr rfl)
    rw [decide_eq_true hasleep] at hlives
    exact hlives
  · rw [if_neg htk]
    apply Unmoved.allows
    refine unmoved_of_ne htk rfl (.inr (by rw [hpc]; rfl)) (.inr rfl)
      (not_ends_of_pc (by rw [hpc]; exact id)) ?_ rfl .rfl
    simp [suspendErase, Ne.symm htk]

theorem allows_switchOut {q : Processer} (h : s.Coherent) (hexec : s.Executes p tk')
    (hq : q = { s.processers_ p with pc := .switched }) :
    s.Allows (s.setProcesser p q) tk (if tk' = tk then [.switchOut] else []) := by
  subst hq
  by_cases htk : tk' = tk
  · subst htk
    intro l hl
    obtain ⟨hlive, hstate, hexec, rfl⟩ := h.lives_executing hexec hl
    rw [if_pos rfl]
    have hproc : (s.setProcesser p { s.processers_ p with pc := .switched }).processers_ =
      Function.update s.processers_ p _ := rfl
    exact ⟨_, Life.run_switchOut p _, lives_left hproc hexec hlive hstate rfl (.inl rfl)⟩
  · rw [if_neg htk]
    apply Unmoved.allows
    refine unmoved_of_ne htk rfl (.inr (executes_iff.mp hexec)) (.inl rfl) ?_ .rfl rfl .rfl
    apply not_ends_of_pc
    rcases hexec with hpc | hpc | hpc <;> rw [hpc] <;> exact id

theorem allows_finish (h : s.Coherent) (hpc : (s.processers_ p).pc = .exec tk') :
    s.Allows (s.finish p tk') tk (if tk' = tk then [.finish] else []) := by
  by_cases htk : tk' = tk
  · subst htk
    intro l hl
    have hheld : tk' ∈ (s.processers_ p).held .runnable := (h.exec hpc).2.1
    obtain ⟨hlive, -, -, rfl⟩ := h.lives_executing (.inl hpc) hl
    have hawake : tk' ∉ s.suspended := h.tidy.not_shared (g := .suspended) hheld
    rw [if_pos rfl, decide_eq_false hawake]
    refine ⟨.ended, rfl, .ended (p := p) hlive (by simp [finish]) ?_⟩
    rw [finish, processers_setProcesser]
    exact ⟨(h.exec hpc).1, trivial⟩
  · rw [if_neg htk]
    apply Unmoved.allows
    refine unmoved_of_ne htk rfl (.inr (by rw [hpc]; rfl)) (.inl rfl)
      (not_ends_of_pc (by rw [hpc]; exact id)) .rfl (task_setTask_of_ne htk) .rfl

theorem unmoved_suspendBySelfIo (h : s.Coherent) (hpc : (s.processers_ p).pc = .exec tk') :
    Unmoved s (s.suspendBySelfIo p tk') tk := by
  refine unmoved_of_update (x := { s.processers_ p with pc := .suspending tk' }) rfl
    (by rw [hpc]; rfl) (fun _ hends => ?_) .rfl (fun _ => ?_) .rfl
  · exact absurd hends (not_ends_of_pc (by rw [hpc]; exact id))
  · by_cases htk : tk' = tk
    · subst htk
      simp [suspendBySelfIo, (h.exec hpc).2.2.1]
    · rw [suspendBySelfIo, task_setProcesser, task_setTask_of_ne htk]
      rfl

theorem free_doneAdvance (hpc : (s.processers_ p).pc = .doneAdvance) :
    (s.branch p tk').Free tk ↔ tk = tk' ∨ s.Free tk := by
  have hvalues := (Multimap.values_insert (m := s.free_task_map_) (s.task tk').stack_size_ tk').mem_iff
    (a := tk)
  unfold branch
  simp only [hpc]
  unfold Free
  show s.allocated ≤ tk ∨ tk ∈ (s.free_task_map_.insert _ tk').values ↔ _
  rw [hvalues, List.mem_cons]
  tauto

theorem allows_doneAdvance (h : s.Coherent) (hpc : (s.processers_ p).pc = .doneAdvance)
    (hrun : (s.processers_ p).runningTask_ = some tk') :
    s.Allows (s.branch p tk') tk (if tk' = tk then [.recycle] else []) := by
  by_cases htk : tk' = tk
  · subst htk
    intro l hl
    have hheld : tk' ∈ (s.processers_ p).held .finished := by simp [Processer.held, hpc, hrun]
    have hlive := h.not_free_of_mem (i := .processer p .finished) hheld processer_ne_shared
    have hdone : (s.task tk').state_ = .done := by
      have hphase := h.phase p
      rw [hpc, hrun] at hphase
      cases hphase with
      | leaving hpc' _ _ => exact hpc'.elim
      | ended hpc' _ _ => rcases hpc' with hpc' | hpc' <;> cases hpc'
      | erased hstate => exact hstate
    rw [if_pos rfl]
    cases hl with
    | free hfree => exact absurd hfree hlive
    | alive _ hstate _ => exact absurd hdone hstate
    | ended _ _ _ => exact ⟨.free, rfl, .free ((free_doneAdvance hpc).mpr (.inl rfl))⟩
  · rw [if_neg htk]
    apply Unmoved.allows
    have hends : ¬ (s.processers_ p).Ends tk := by
      rintro ⟨hrun', -⟩
      exact htk (Option.some.inj (hrun.symm.trans hrun'))
    have hfree : (s.branch p tk').Free tk ↔ s.Free tk := by
      rw [free_doneAdvance hpc, or_iff_right (Ne.symm htk)]
    have htask : (s.branch p tk').task tk = s.task tk := by
      unfold branch
      simp only [hpc]
      exact task_setTask_of_ne htk
    have hproc : (s.branch p tk').processers_ = Function.update s.processers_ p
        { s.processers_ p with
          runningTask_ := (s.processers_ p).nextTask_, nextTask_ := none, pc := .loop } := by
      unfold branch
      simp only [hpc]
      rfl
    have hsuspended : (s.branch p tk').suspended = s.suspended := by
      unfold branch
      simp only [hpc]
      rfl
    exact unmoved_of_ne htk hproc (.inl (by rw [hpc]; rfl)) (.inl rfl) hends (by rw [hsuspended])
      htask hfree

/-- The task that `CreateTask` takes is free before it and not behind it, and it is the only
one for which this changes. -/
theorem createdTask_spec (h : s.Coherent) (hcached : s.Cached) (n : Int) :
    s.Free (s.createdTask n) ∧ ((s.createTask n).task (s.createdTask n)).state_ ≠ .done ∧
      (∀ tk, (s.createTask n).Free tk ↔ s.Free tk ∧ s.createdTask n ≠ tk) ∧
      ∀ tk, s.createdTask n ≠ tk → (s.createTask n).task tk = s.task tk := by
  have hcreated := s.created n
  generalize s.createTask n = t at *
  unfold createdTask getFreeTaskList Free
  cases hcreated with
  | @reused itr hitr p m =>
      rw [hitr]
      have hmem := Multimap.mem_of_lowerBound hitr
      have hperm := Multimap.values_erase hmem
      have hvalue : itr.value ∈ s.free_task_map_.values := List.mem_map_of_mem hmem
      have hlt : itr.value < s.allocated := (h.tidy.mem_iff _).mpr ⟨.shared .free, hvalue⟩
      have hnodup := hperm.nodup_iff.mp (h.tidy.nodup (.shared .free))
      simp only [Option.getD_some]
      refine ⟨.inr hvalue, ?_, fun tk => ?_, fun _ _ => trivial⟩
      · rw [(hcached itr hmem).2.1]
        nofun
      · rw [hperm.mem_iff, List.mem_cons]
        by_cases htk : itr.value = tk
        · subst htk
          have hout := (List.nodup_cons.mp hnodup).1
          simp [hout, hlt]
        · simp [htk, Ne.symm htk]
  | new hnone p m =>
      rw [hnone]
      have hout : s.allocated ∉ s.free_task_map_.values := fun hmem =>
        Nat.lt_irrefl _ ((h.tidy.mem_iff _).mpr ⟨.shared .free, hmem⟩)
      simp only [Option.getD_none, newTask]
      refine ⟨.inl (Nat.le_refl _), ?_, fun tk => ?_, fun tk htk => task_setTask_of_ne htk⟩
      · rw [task_setTask]
        nofun
      · show s.allocated + 1 ≤ tk ∨ tk ∈ s.free_task_map_.values ↔ _
        by_cases htk : s.allocated = tk
        · subst htk
          simp [hout]
        · have hle : s.allocated + 1 ≤ tk ↔ s.allocated ≤ tk :=
            ⟨Nat.le_of_succ_le, fun hle => Nat.lt_of_le_of_ne hle htk⟩
          simp [hle, htk]

theorem allows_createTask (h : s.Coherent) (hcached : s.Cached) (n : Int) :
    s.Allows (s.createTask n) tk (if s.createdTask n = tk then [.create] else []) := by
  obtain ⟨hfree, hstate, hfree', htask⟩ := createdTask_spec h hcached n
  obtain ⟨hproc, hsuspended⟩ := createTask_frame (s := s) n
  by_cases htk : s.createdTask n = tk
  · intro l hl
    rw [htk] at hfree hstate
    have hout : ∀ p, ¬ s.Executes p tk := by
      intro p hexec
      obtain ⟨-, -, hmem | hmem | hmem⟩ := h.executing hexec
      · exact h.not_free_of_mem (i := .processer p .runnable) hmem processer_ne_shared hfree
      · exact h.not_free_of_mem (i := .shared .suspended) hmem (by simp) hfree
      · exact h.not_free_of_mem (i := .shared .waking) hmem (by simp) hfree
    have hawake : tk ∉ s.suspended := fun hmem =>
      h.not_free_of_mem (i := .shared .suspended) hmem (by simp) hfree
    rw [if_pos htk]
    cases hl with
    | alive hlive _ _ | ended hlive _ _ => exact absurd hfree hlive
    | free _ =>
        refine ⟨.alive none false, rfl, ?_⟩
        rw [← decide_eq_false (hsuspended ▸ hawake)]
        refine .alive ?_ hstate fun p => ?_
        · rw [hfree' tk]
          exact fun hfree => hfree.2 htk
        · rw [executes_iff, hproc, ← executes_iff]
          simp [hout p]
  · rw [if_neg htk]
    apply Unmoved.allows
    refine unmoved_outside (fun p => by rw [hproc]) (fun p => by rw [hproc]) (by rw [hsuspended])
      (fun _ => by rw [htask tk htk]) ?_
    rw [hfree' tk, and_iff_left htk]

theorem allows_wakeupBySelfIo (h : s.Coherent) (hmem : tk' ∈ s.suspended) :
    s.Allows (s.wakeupBySelfIo tk') tk (if tk' = tk then [.wake] else []) := by
  obtain ⟨_, p, hhome⟩ := h.suspended tk' hmem
  have hnodup : s.suspended.Nodup := h.tidy.nodup (.shared .suspended)
  rw [wakeupBySelfIo_eq hhome]
  by_cases htk : tk' = tk
  · subst htk
    intro l hl
    rw [if_pos rfl]
    cases hl with
    | free hfree =>
        exact absurd hfree (h.not_free_of_mem (i := .shared .suspended) hmem (by simp))
    | ended _ hstate _ => cases hstate.symm.trans (h.suspended tk' hmem).1
    | @alive on hlive hstate hon =>
        have hawake : tk' ∉ s.suspended.erase tk' := hnodup.not_mem_erase
        rw [decide_eq_true hmem]
        refine ⟨.alive on false, by cases on <;> rfl, ?_⟩
        rw [← decide_eq_false hawake]
        refine .alive hlive ?_ hon
        simp [setTask]
  · rw [if_neg htk]
    apply Unmoved.allows
    refine unmoved_outside (fun _ => rfl) (fun _ => rfl) ?_ (fun _ => ?_) .rfl
    · exact List.mem_erase_of_ne (Ne.symm htk)
    · have htask : (s.setTask tk' { s.task tk' with state_ := .runnable }).task tk = s.task tk :=
        task_setTask_of_ne htk
      exact iff_of_eq (congrArg (fun r => r.state_ = .done) htask)

theorem unmoved_of_not_ending (hexec : x.pc.executing = (s.processers_ p).pc.executing)
    (hpc : ¬ (s.processers_ p).pc.Ending) : Unmoved s (s.setProcesser p x) tk :=
  unmoved_setProcesser hexec fun _ hends => absurd hends (not_ends_of_pc hpc)

theorem allows_branch (h : s.Coherent) (hout : (s.processers_ p).pc.SwappedOut)
    (hrun : (s.processers_ p).runningTask_ = some tk') :
    s.Allows (s.branch p tk') tk (s.lifeOf tk (.process p)) := by
  have hassert : ∀ (b : Bool) (x : Processer),
      Unmoved s (s.setProcesser p x) tk → Unmoved s ((s.assert b).setProcesser p x) tk :=
    fun _ _ hu => ⟨hu.executes, hu.ends, hu.suspended, hu.state, hu.free⟩
  have hkeep : ∀ x : Processer, x.pc.executing = (s.processers_ p).pc.executing →
      (∀ (_ : (s.task tk).state_ = .done) (_ : tk' = tk),
        x.runningTask_ = some tk' ∧ x.pc.Ending) → Unmoved s (s.setProcesser p x) tk := by
    intro x hexec hx
    apply unmoved_setProcesser hexec
    intro hdone hends
    have htk : tk' = tk := Option.some.inj (hrun.symm.trans hends.1)
    exact htk ▸ hx hdone htk
  cases hpc : (s.processers_ p).pc with
  | doneAdvance =>
      have hlife : s.lifeOf tk (.process p) = if tk' = tk then [.recycle] else [] := by
        simp only [lifeOf, hpc, hrun, Option.some.injEq]
      rw [hlife]
      exact allows_doneAdvance h hpc hrun
  | switched =>
      have hlife : s.lifeOf tk (.process p) = [] := by simp only [lifeOf, hpc]
      rw [hlife]
      unfold branch
      simp only [hpc]
      apply (hkeep _ _ _).allows
      · rw [hpc]
        cases (s.task tk').state_ <;> rfl
      · rintro hdone rfl
        rw [hdone]
        exact ⟨hrun, trivial⟩
  | doneNext | doneErase =>
      have hlife : s.lifeOf tk (.process p) = [] := by simp only [lifeOf, hpc]
      rw [hlife]
      unfold branch
      simp only [hpc]
      apply (hassert _ _ (hkeep _ _ _)).allows
      · rw [hpc]
        rfl
      · intro _ _
        exact ⟨hrun, trivial⟩
  | block =>
      have hlife : s.lifeOf tk (.process p) = [] := by simp only [lifeOf, hpc]
      rw [hlife]
      unfold branch
      simp only [hpc]
      exact (unmoved_of_not_ending (by rw [hpc]; rfl) (by rw [hpc]; exact id)).allows
  | runnable =>
      have hlife : s.lifeOf tk (.process p) = [] := by simp only [lifeOf, hpc]
      rw [hlife]
      unfold branch
      simp only [hpc]
      exact (hassert _ _ (unmoved_of_not_ending (by rw [hpc]; rfl) (by rw [hpc]; exact id))).allows
  | _ =>
      rw [hpc] at hout
      exact hout.elim

theorem allows_process (h : s.Coherent) (hs : s.process p = some t) :
    s.Allows t tk (s.lifeOf tk (.process p)) := by
  cases processed hs with
  | @swapIn tk' hpc hrun =>
      have hlife : s.lifeOf tk (.process p) = if tk' = tk then [.resume p] else [] := by
        simp only [lifeOf, hpc, hrun, Option.some.injEq]
      rw [hlife]
      exact allows_swapIn h hpc hrun
  | suspendErase hpc =>
      simp only [lifeOf, hpc]
      exact allows_suspendErase h hpc
  | suspended hpc =>
      simp only [lifeOf, hpc]
      exact allows_switchOut h (.inr (.inr hpc)) rfl
  | branch hout hrun => exact allows_branch h hout hrun
  | unpicked hout hrun => exact absurd hrun (h.running hout)
  | loopEnd hpc hrun =>
      have hlife : s.lifeOf tk (.process p) = [] := by simp [lifeOf, hpc, hrun]
      rw [hlife]
      exact (unmoved_of_not_ending (by rw [hpc]; rfl) (by rw [hpc]; exact id)).allows
  | addPop hpc | waitLoop hpc =>
      simp only [lifeOf, hpc]
      exact (unmoved_of_not_ending (by rw [hpc]; rfl) (by rw [hpc]; exact id)).allows
  | front hpc | addEmpty hpc | addPush hpc | frontAgain hpc =>
      simp only [lifeOf, hpc]
      apply (unmoved_of_not_ending _ (by rw [hpc]; exact id)).allows
      rw [hpc]
      simp only
      split <;> first | rfl | split <;> rfl

theorem avgTotalTasks_tasks :
    (∀ p, (s.avgTotalTasks.processers_ p).runningTask_ = (s.processers_ p).runningTask_) ∧
      s.avgTotalTasks.task = s.task ∧ s.avgTotalTasks.allocated = s.allocated ∧
      s.avgTotalTasks.free_task_map_ = s.free_task_map_ := by
  have hupdate : ∀ (q : Nat) (x : Processer), x.runningTask_ = (s.processers_ q).runningTask_ →
      ∀ p, (Function.update s.processers_ q x p).runningTask_ = (s.processers_ p).runningTask_ := by
    intro q x hx p
    by_cases hp : p = q
    · rw [hp, Function.update_self, hx]
    · rw [Function.update_of_ne hp]
  unfold Scheduler.avgTotalTasks
  split
  case h_1 => split <;> exact ⟨fun _ => rfl, rfl, rfl, rfl⟩
  case h_2 =>
    simp only
    split <;> exact ⟨fun _ => rfl, rfl, rfl, rfl⟩
  case h_3 => exact ⟨fun _ => rfl, rfl, rfl, rfl⟩
  case h_4 =>
    unfold Scheduler.steal
    split
    · simp only
      split
      · exact ⟨hupdate _ _ rfl, rfl, rfl, rfl⟩
      · exact ⟨fun _ => rfl, rfl, rfl, rfl⟩
    · exact ⟨fun _ => rfl, rfl, rfl, rfl⟩
  case h_5 => exact ⟨hupdate _ _ rfl, rfl, rfl, rfl⟩
  case h_6 =>
    unfold Scheduler.deal
    split
    · simp only
      split <;> exact ⟨fun _ => rfl, rfl, rfl, rfl⟩
    · exact ⟨fun _ => rfl, rfl, rfl, rfl⟩
  case h_7 => exact ⟨hupdate _ _ rfl, rfl, rfl, rfl⟩
  case h_8 =>
    split
    · exact ⟨fun _ => rfl, rfl, rfl, rfl⟩
    · exact ⟨hupdate _ _ rfl, rfl, rfl, rfl⟩

theorem allows_step (h : s.Coherent) (hcached : s.Cached) (hs : s.step e = some t) :
    s.Allows t tk (s.lifeOf tk e) := by
  cases stepped hs with
  | newProcessThread =>
      apply Unmoved.allows
      exact unmoved_outside (fun _ => rfl) (fun _ => rfl) .rfl (fun _ => .rfl) .rfl
  | createTask n => exact allows_createTask h hcached n
  | addTask hk =>
      apply Unmoved.allows
      exact unmoved_of_update rfl .rfl (fun _ hends => hends) .rfl (fun _ => .rfl) .rfl
  | process _ hs => exact allows_process h hs
  | @yield p tk' hpc =>
      have hlife : s.lifeOf tk (.yield p) = if tk' = tk then [.switchOut] else [] := by
        simp only [lifeOf, hpc, ProcessPc.exec.injEq]
      rw [hlife]
      exact allows_switchOut h (.inl hpc) rfl
  | suspendBySelfIo hpc => exact (unmoved_suspendBySelfIo h hpc).allows
  | runOn hpc =>
      apply Unmoved.allows
      exact unmoved_of_update rfl (by rw [hpc]; rfl)
        (fun _ hends => absurd hends (not_ends_of_pc (by rw [hpc]; exact id))) .rfl
        (fun _ => .rfl) .rfl
  | @finish p tk' hpc =>
      have hlife : s.lifeOf tk (.finish p) = if tk' = tk then [.finish] else [] := by
        simp only [lifeOf, hpc, ProcessPc.exec.injEq]
      rw [hlife]
      exact allows_finish h hpc
  | wakeupBySelfIo hmem => exact allows_wakeupBySelfIo h hmem
  | wakeupPush hk =>
      apply Unmoved.allows
      exact unmoved_of_update rfl .rfl (fun _ hends => hends) .rfl (fun _ => .rfl) .rfl
  | avgTotalTasks =>
      obtain ⟨hrun, htask, halloc, hfree⟩ := avgTotalTasks_tasks (s := s)
      apply Unmoved.allows
      refine unmoved_outside (fun p => avgTotalTasks_frame.1) hrun ?_ (fun _ => by rw [htask]) ?_
      · rw [(avgTotalTasks_frame (p := 0)).2]
      · unfold Free
        rw [halloc, hfree]

end Steps

/-- Every run shows every task a life, and its state is where that life has come to. -/
theorem lives_of_reach {os : List LifeEvent} (tk : TaskPtr)
    (h : Machine.Reach (Machine.observed step (lifeOf tk)) Machine.Free (make, []) (s, os)) :
    ∃ l, Machine.run Life.step Machine.Free .free os = some l ∧ s.Lives tk l ∧
      Life.Accounts .free os l := by
  have hstep : ∀ (s : Scheduler) (l : Life) (e : SchedulerStep) (t : Scheduler),
      (s.Coherent ∧ s.Cached ∧ s.Lives tk l) → Machine.Free s e → s.step e = some t →
      ∃ l', Machine.run Life.step Machine.Free l (s.lifeOf tk e) = some l' ∧
        (t.Coherent ∧ t.Cached ∧ t.Lives tk l') := by
    rintro s l e t ⟨hcoh, hcached, hl⟩ - hs
    obtain ⟨l', hrun, hl'⟩ := allows_step hcoh hcached hs l hl
    exact ⟨l', hrun, hcoh.step hs, hcached.step hcoh hs, hl'⟩
  obtain ⟨l, hrun, -, -, hl⟩ := Machine.Reach.accepted hstep
    ⟨coherent_make, cached_make, .free (.inl (Nat.zero_le _))⟩ h
  exact ⟨l, hrun, hl, Life.accounts_run hrun⟩

/-- Task 0 is woken up before it has switched out, twice: it runs on and suspends itself again,
then it switches out.  It ends when it runs for the second time, and is used again. -/
def fullLife : List SchedulerStep :=
  List.flatten [[.createTask 8, .addTask 0], List.replicate 6 (.process 0),
    [.suspendBySelfIo 0, .process 0, .wakeupBySelfIo 0, .wakeupPush 0, .runOn 0],
    [.suspendBySelfIo 0, .process 0, .wakeupBySelfIo 0], List.replicate 3 (.process 0),
    [.wakeupPush 0], List.replicate 4 (.process 0), [.finish 0], List.replicate 4 (.process 0),
    [.createTask 8]]

theorem lives_of_fullLife : ∃ (s : Scheduler) (l : Life),
    Machine.run Life.step Machine.Free .free [.create, .resume 0, .suspend, .wake, .suspend, .wake,
      .switchOut, .resume 0, .finish, .recycle, .create] = some l ∧ s.Lives 0 l ∧
      Life.Accounts .free [.create, .resume 0, .suspend, .wake, .suspend, .wake, .switchOut,
        .resume 0, .finish, .recycle, .create] l := by
  have hrun : (Machine.run (Machine.observed step (lifeOf 0)) Machine.Free (make, [])
      fullLife).any (fun w => w.2 = [.create, .resume 0, .suspend, .wake, .suspend, .wake,
        .switchOut, .resume 0, .finish, .recycle, .create]) = true := by decide +kernel
  obtain ⟨⟨s, os⟩, hrun, rfl⟩ := Machine.exists_of_run hrun
  exact ⟨s, lives_of_reach 0 (Machine.reach_of_run fullLife hrun)⟩

end Scheduler

end CppGo.Scheduling
