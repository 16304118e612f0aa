import CppGo.Lib.Observer
import CppGo.Lib.Rotation
import CppGo.Scheduler.Pass

/-!
# The turns of the tasks of a queue

How long a queued task waits for its next `SwapIn`.  The thread goes through `runnableQueue_`
from the front to the end and starts again, and a task that is woken up comes in at the end,
where the same pass still reaches it.  A task that is woken up before it has switched out ends
the pass early: `Process` then follows its hook, not `nextTask_`.
-/

namespace CppGo.Scheduling

open CppGo.Lib CppGo.Lib.Rotation

inductive QueueEvent
  | swapIn (tk : TaskPtr)
  /-- `WakeupBySelfIO` has put the task at the end of the queue. -/
  | wakeup (tk : TaskPtr)
deriving DecidableEq, Repr

namespace QueueEvent

def isSwapIn : QueueEvent → Bool
  | swapIn _ => true
  | wakeup _ => false

def isWakeup : QueueEvent → Bool
  | swapIn _ => false
  | wakeup _ => true

end QueueEvent

/-- The next step of the dispatcher takes nothing out of `runnableQueue_` of `p`. -/
def DispatcherPc.Leaves (p : Nat) : DispatcherPc → Prop
  | stealRunnable a _ _ => a.i ≠ p
  | _ => True

instance (p : Nat) : ∀ d : DispatcherPc, Decidable (d.Leaves p)
  | .stealRunnable a _ _ => inferInstanceAs (Decidable (a.i ≠ p))
  | .idle | .sizeRunnable _ | .sizeNew _ _ | .steal _ | .deal _ | .addTask _ _ | .left _ =>
      .isTrue trivial

namespace Scheduler

def wakes (s : Scheduler) (p : Nat) : SchedulerStep → TaskList
  | .wakeupPush k =>
      match s.waking[k]? with
      | some (tk, p') => if p' = p then [tk] else []
      | none => []
  | _ => []

def turns (p : Nat) (s : Scheduler) (e : SchedulerStep) : List QueueEvent :=
  (s.swapsIn p e).map .swapIn ++ (s.wakes p e).map .wakeup

/-- The step is no `Steal` from `runnableQueue_` of `p`. -/
def Unstolen (p : Nat) (s : Scheduler) : SchedulerStep → Prop
  | .avgTotalTasks => s.dispatcher.Leaves p
  | _ => True

instance (p : Nat) (s : Scheduler) : ∀ e, Decidable (s.Unstolen p e)
  | .avgTotalTasks => inferInstanceAs (Decidable (s.dispatcher.Leaves p))
  | .newProcessThread | .createTask _ | .addTask _ | .process _ | .yield _ | .suspendBySelfIo _
  | .runOn _ | .finish _ | .wakeupBySelfIo _ | .wakeupPush _ => .isTrue trivial

/-- The task is in the queue of `p`, and it is not the one that runs. -/
def Waits (s : Scheduler) (p : Nat) (tk : TaskPtr) : Prop :=
  tk ∈ (s.processers_ p).runnableQueue_ ∧
    ((s.processers_ p).runningTask_ = some tk → (s.processers_ p).pc = .loop)

def upNext (s : Scheduler) (p : Nat) : List (Option TaskPtr) :=
  let x := s.processers_ p
  let behind := x.runningTask_.bind (after x.runnableQueue_)
  match x.pc with
  | .loop => [x.runningTask_]
  | .exec _ | .suspending _ | .runnable | .doneNext => [behind]
  | .block | .doneErase | .doneAdvance => [x.nextTask_]
  | .suspended _ | .switched =>
      if x.runningTask_.any (· ∈ s.suspended) then [x.nextTask_, none] else [behind]
  | _ => [none]

/-- Where `k` tasks have been swapped in, it will be at most `n` when the turn of `tk` comes. -/
def Within (s : Scheduler) (p : Nat) (tk : TaskPtr) (k n : Nat) : Prop :=
  ∀ o ∈ s.upNext p, rank (s.processers_ p).runnableQueue_ tk o + k ≤ n

variable {s t : Scheduler} {p p' n : Nat} {tk r : TaskPtr} {x : Processer} {e : SchedulerStep}
  {l : TaskList}

theorem next_eq_after {q : TaskQueue} : q.nextWithoutLock tk = after q tk := by
  induction q with
  | nil => rfl
  | cons a q ih =>
      unfold TaskQueue.nextWithoutLock after
      by_cases ha : a = tk
      · rw [if_pos ha, ha, List.idxOf_cons_self, List.getElem?_cons_succ, List.head?_eq_getElem?]
      · rw [if_neg ha, ih, List.idxOf_cons_ne _ ha, List.getElem?_cons_succ]
        rfl

theorem erase_fst {q : TaskQueue} (h : tk ∈ q) : (q.eraseWithoutLock tk).1 = q.erase tk :=
  congrArg Prod.fst (TaskQueue.erase_of_mem h)

theorem any_suspended {o : Option TaskPtr} :
    o.any (· ∈ s.suspended) = true ↔ ∃ r, o = some r ∧ r ∈ s.suspended := by
  cases o <;> simp

theorem Coherent.nodup_queue (h : s.Coherent) : (s.processers_ p).runnableQueue_.Nodup :=
  h.tidy.nodup (.processer p .runnable)

section Bound

theorem points_upNext (h : s.Coherent) :
    ∀ o ∈ s.upNext p, Points (s.processers_ p).runnableQueue_ o := by
  have hbehind : Points (s.processers_ p).runnableQueue_
      ((s.processers_ p).runningTask_.bind (after (s.processers_ p).runnableQueue_)) := by
    cases (s.processers_ p).runningTask_ with
    | none => exact nofun
    | some r => exact points_after
  have hnext : Points (s.processers_ p).runnableQueue_ (s.processers_ p).nextTask_ :=
    fun c hc => h.next p c hc
  intro o ho
  unfold upNext at ho
  simp only at ho
  split at ho
  case h_1 hpc =>
    rw [List.mem_singleton.mp ho]
    exact fun c hc => h.picked hpc hc
  case h_9 | h_10 =>
    split at ho
    · simp only [List.mem_cons, List.not_mem_nil, or_false] at ho
      rcases ho with rfl | rfl
      · exact hnext
      · exact nofun
    · rw [List.mem_singleton.mp ho]
      exact hbehind
  case h_11 =>
    rw [List.mem_singleton.mp ho]
    exact nofun
  case h_2 | h_3 | h_4 | h_5 =>
    rw [List.mem_singleton.mp ho]
    exact hbehind
  all_goals
    rw [List.mem_singleton.mp ho]
    exact hnext

theorem within_length (h : s.Coherent) (hw : s.Waits p tk) :
    s.Within p tk 0 ((s.processers_ p).runnableQueue_.length.choose 2) :=
  fun _ ho => rank_le hw.1 (points_upNext h _ ho)

theorem upNext_ne_nil : s.upNext p ≠ [] := by
  unfold upNext
  simp only
  split <;> first | exact List.cons_ne_nil _ _ | (split <;> exact List.cons_ne_nil _ _)

theorem Within.le {k : Nat} (h : s.Within p tk k n) : k ≤ n := by
  obtain ⟨o, ho⟩ := List.exists_mem_of_ne_nil _ (upNext_ne_nil (s := s) (p := p))
  exact (Nat.le_add_left _ _).trans (h o ho)

end Bound

section Others

structure Apart (s t : Scheduler) (p : Nat) (l : TaskList) : Prop where
  pc : (t.processers_ p).pc = (s.processers_ p).pc
  running : (t.processers_ p).runningTask_ = (s.processers_ p).runningTask_
  next : (t.processers_ p).nextTask_ = (s.processers_ p).nextTask_
  queue : (t.processers_ p).runnableQueue_ = (s.processers_ p).runnableQueue_ ++ l
  suspended : ∀ r, (s.processers_ p).runningTask_ = some r → r ∈ t.suspended → r ∈ s.suspended

theorem Apart.of_same (hproc : t.processers_ p = s.processers_ p)
    (hsuspended : ∀ r, (s.processers_ p).runningTask_ = some r → r ∈ t.suspended →
      r ∈ s.suspended) : Apart s t p [] := by
  refine ⟨?_, ?_, ?_, ?_, hsuspended⟩ <;> rw [hproc]
  rw [List.append_nil]

theorem Apart.of_update (hproc : t.processers_ = Function.update s.processers_ p' x)
    (hpc : x.pc = (s.processers_ p').pc)
    (hrun : x.runningTask_ = (s.processers_ p').runningTask_)
    (hnext : x.nextTask_ = (s.processers_ p').nextTask_)
    (hqueue : x.runnableQueue_ = (s.processers_ p').runnableQueue_ ++ l)
    (hsuspended : t.suspended = s.suspended) : Apart s t p (if p' = p then l else []) := by
  have hmem : ∀ r, (s.processers_ p).runningTask_ = some r → r ∈ t.suspended → r ∈ s.suspended :=
    fun r _ hr => hsuspended ▸ hr
  by_cases hp : p' = p
  · subst hp
    have hself : t.processers_ p' = x := by rw [hproc, Function.update_self]
    rw [if_pos rfl]
    exact ⟨by rw [hself, hpc], by rw [hself, hrun], by rw [hself, hnext], by rw [hself, hqueue],
      hmem⟩
  · rw [if_neg hp]
    exact .of_same (by rw [hproc, Function.update_of_ne (Ne.symm hp)]) hmem

theorem Apart.of_newQueue (hproc : t.processers_ = Function.update s.processers_ p' x)
    (hx : x = { s.processers_ p' with newQueue_ := l }) (hsuspended : t.suspended = s.suspended) :
    Apart s t p [] := by
  have happart : Apart s t p (if p' = p then [] else []) :=
    .of_update hproc (by rw [hx]) (by rw [hx]) (by rw [hx]) (by rw [hx, List.append_nil])
      hsuspended
  rwa [ite_self] at happart

theorem suspended_of_process (h : s.Coherent) (hs : s.process p' = some t) (hp : p' ≠ p)
    (hrun : (s.processers_ p).runningTask_ = some r) (hr : r ∈ t.suspended) : r ∈ s.suspended := by
  cases processed hs with
  | @suspendErase tk hpc =>
      change r ∈ s.suspended ++ [tk] at hr
      rcases List.mem_append.mp hr with hr | hr
      · exact hr
      · rw [List.mem_singleton.mp hr] at hrun
        exact absurd (h.suspending hpc).2.1 (h.not_held (Ne.symm hp) hrun .runnable)
  | branch _ _ =>
      unfold branch at hr
      simp only at hr
      split at hr <;> exact hr
  | _ => exact hr

theorem apart_avgTotalTasks (hleaves : s.dispatcher.Leaves p) :
    Apart s s.avgTotalTasks p [] := by
  have hset : ∀ d, Apart s { s with dispatcher := d } p [] := fun d => .of_same rfl fun _ _ => id
  unfold Scheduler.avgTotalTasks
  cases hd : s.dispatcher with
  | idle =>
      simp only
      split
      · exact .of_same rfl fun _ _ => id
      · exact hset _
  | sizeRunnable counts =>
      simp only
      split <;> exact hset _
  | sizeNew counts size => exact hset _
  | steal a =>
      simp only [Scheduler.steal]
      split
      · split
        · exact .of_newQueue rfl rfl rfl
        · exact hset _
      · exact hset _
  | stealRunnable a n slist =>
      rw [hd] at hleaves
      exact .of_same (Function.update_of_ne (Ne.symm hleaves) ..) fun _ _ => id
  | deal a =>
      simp only [Scheduler.deal]
      split
      · split <;> exact hset _
      · exact hset _
  | addTask a slist => exact .of_newQueue rfl rfl rfl
  | left tasks =>
      simp only
      split
      · exact hset _
      · exact .of_newQueue rfl rfl rfl

theorem apart_step (h : s.Coherent) (hs : s.step e = some t) (hown : own p e = false)
    (hunstolen : s.Unstolen p e) : Apart s t p (s.wakes p e) := by
  cases stepped hs with
  | newProcessThread => exact .of_same rfl fun _ _ => id
  | createTask n =>
      have hcreated := s.created n
      generalize s.createTask n = t at hcreated
      cases hcreated with
      | reused => exact .of_same rfl fun _ _ => id
      | new => exact .of_same rfl fun _ _ => id
  | addTask hk => exact .of_newQueue rfl rfl rfl
  | @process p' t hp hs =>
      have hp : p' ≠ p := by simpa [own] using hown
      refine .of_same ((local_process hs).processers p (Ne.symm hp)) ?_
      exact fun r => suspended_of_process h hs hp
  | @yield p' tk hpc =>
      have hp : p' ≠ p := by simpa [own] using hown
      exact .of_same (Function.update_of_ne (Ne.symm hp) ..) fun _ _ => id
  | @suspendBySelfIo p' tk hpc =>
      have hp : p' ≠ p := by simpa [own] using hown
      exact .of_same (Function.update_of_ne (Ne.symm hp) ..) fun _ _ => id
  | @runOn p' tk hpc =>
      have hp : p' ≠ p := by simpa [own] using hown
      exact .of_same (Function.update_of_ne (Ne.symm hp) ..) fun _ _ => id
  | @finish p' tk hpc =>
      have hp : p' ≠ p := by simpa [own] using hown
      exact .of_same (Function.update_of_ne (Ne.symm hp) ..) fun _ _ => id
  | wakeupBySelfIo hmem =>
      unfold Scheduler.wakeupBySelfIo
      split
      · exact .of_same rfl fun _ _ => List.mem_of_mem_erase
      · exact .of_same rfl fun _ _ => id
  | @wakeupPush k tk p' hk =>
      simp only [wakes, hk]
      exact .of_update rfl rfl rfl rfl rfl rfl
  | avgTotalTasks => exact apart_avgTotalTasks hunstolen

/-- A pointer behind the step goes back to one in front of it. -/
theorem Apart.upNext (h : Apart s t p l) (hcoh : s.Coherent) (hcoh' : t.Coherent)
    (hmem : tk ∈ (s.processers_ p).runnableQueue_) : ∀ o ∈ t.upNext p, ∃ o' ∈ s.upNext p,
      rank ((s.processers_ p).runnableQueue_ ++ l) tk o ≤
        rank (s.processers_ p).runnableQueue_ tk o' + l.length := by
  have hq := hcoh'.nodup_queue (p := p)
  rw [h.queue] at hq
  have hsame : ∀ o ∈ s.upNext p, rank ((s.processers_ p).runnableQueue_ ++ l) tk o ≤
      rank (s.processers_ p).runnableQueue_ tk o + l.length :=
    fun o ho => rank_append hmem (points_upNext hcoh o ho)
  have hbehind : rank ((s.processers_ p).runnableQueue_ ++ l) tk
      ((s.processers_ p).runningTask_.bind (after ((s.processers_ p).runnableQueue_ ++ l))) ≤
      rank (s.processers_ p).runnableQueue_ tk
        ((s.processers_ p).runningTask_.bind (after (s.processers_ p).runnableQueue_)) +
        l.length := by
    cases (s.processers_ p).runningTask_ with
    | none => exact rank_append hmem nofun
    | some r => exact rank_after_append hq hmem
  intro o ho
  unfold Scheduler.upNext at ho hsame ⊢
  simp only [h.pc, h.running, h.next, h.queue] at ho
  cases hpc : (s.processers_ p).pc with
  | exec tk' | suspending tk' | runnable | doneNext =>
      simp only [hpc] at ho ⊢
      rw [List.mem_singleton.mp ho]
      exact ⟨_, List.mem_singleton_self _, hbehind⟩
  | suspended tk' | switched =>
      simp only [hpc] at ho hsame ⊢
      by_cases hsusp : (s.processers_ p).runningTask_.any (· ∈ s.suspended) = true
      · rw [if_pos hsusp] at hsame ⊢
        obtain ⟨r, hrun, hr⟩ := any_suspended.mp hsusp
        have hout : r ∉ (s.processers_ p).runnableQueue_ := fun hin =>
          hcoh.tidy.not_shared (q := .runnable) (g := .suspended) hin hr
        split at ho
        · exact ⟨o, ho, hsame o ho⟩
        · rw [hrun, Option.bind_some, Option.bind_some, after_of_not_mem hout] at hbehind
          rw [List.mem_singleton.mp ho, hrun]
          exact ⟨none, List.mem_cons_of_mem _ (List.mem_singleton_self _), hbehind⟩
      · have hsusp' : ¬ (s.processers_ p).runningTask_.any (· ∈ t.suspended) = true := by
          intro hsusp'
          obtain ⟨r, hrun, hr⟩ := any_suspended.mp hsusp'
          exact hsusp (any_suspended.mpr ⟨r, hrun, h.suspended r hrun hr⟩)
        rw [if_neg hsusp'] at ho
        rw [if_neg hsusp, List.mem_singleton.mp ho]
        exact ⟨_, List.mem_singleton_self _, hbehind⟩
  | _ =>
      simp only [hpc] at ho hsame ⊢
      exact ⟨o, ho, hsame o ho⟩

/-- What another thread does makes a queued task wait for its wake-ups only. -/
theorem Apart.within (h : Apart s t p l) (hcoh : s.Coherent) (hcoh' : t.Coherent)
    (hw : s.Waits p tk) {k : Nat} (hn : s.Within p tk k n) :
    t.Waits p tk ∧ t.Within p tk k (n + l.length) := by
  refine ⟨⟨?_, ?_⟩, ?_⟩
  · rw [h.queue]
    exact List.mem_append_left _ hw.1
  · rw [h.running, h.pc]
    exact hw.2
  · intro o ho
    obtain ⟨o', ho', hle⟩ := h.upNext hcoh hcoh' hw.1 o ho
    have hn' := hn o' ho'
    rw [h.queue]
    omega

end Others

section Own

def Proceeds (s t : Scheduler) (p : Nat) (tk : TaskPtr) (l : TaskList) : Prop :=
  ∀ k n, s.Waits p tk → s.Within p tk k n → t.Waits p tk ∧ t.Within p tk (k + l.length) n

theorem proceeds_of (hproc : t.processers_ p = x)
    (hqueue : x.runnableQueue_ = (s.processers_ p).runnableQueue_)
    (hrun : s.Waits p tk → x.runningTask_ = some tk → x.pc = .loop)
    (hnext : t.upNext p ⊆ s.upNext p) : Proceeds s t p tk [] := by
  intro k n hw hn
  refine ⟨⟨?_, ?_⟩, ?_⟩
  · rw [hproc, hqueue]
    exact hw.1
  · rw [hproc]
    exact hrun hw
  · intro o ho
    rw [hproc, hqueue]
    exact hn o (hnext ho)

theorem upNext_between (hpc : (s.processers_ p).pc.Between) : s.upNext p = [none] := by
  unfold upNext
  simp only
  generalize (s.processers_ p).pc = pc at hpc
  cases pc <;> first | rfl | exact hpc.elim

theorem proceeds_front {pc : ProcessPc} (hpc : (s.processers_ p).pc.Between) :
    Proceeds s (s.setProcesser p { s.processers_ p with
      runningTask_ := (s.processers_ p).runnableQueue_.front
      pc := if (s.processers_ p).runnableQueue_.front.isSome then .loop else pc }) p tk [] := by
  intro k n hw hn
  obtain ⟨c, hc⟩ : ∃ c, (s.processers_ p).runnableQueue_.front = some c := by
    obtain ⟨c, l, hl⟩ := List.exists_cons_of_ne_nil (List.ne_nil_of_mem hw.1)
    exact ⟨c, by rw [hl]; rfl⟩
  have hfirst := hn none (by rw [upNext_between hpc]; exact List.mem_singleton_self _)
  rw [← rank_head hw.1] at hfirst
  change rank _ tk (s.processers_ p).runnableQueue_.front + k ≤ n at hfirst
  rw [hc] at hfirst
  refine ⟨?_, ?_⟩
  · unfold Waits
    rw [processers_setProcesser]
    exact ⟨hw.1, fun _ => if_pos (by rw [hc]; rfl)⟩
  · intro o ho
    unfold upNext at ho
    simp only [processers_setProcesser, hc, Option.isSome_some, if_true] at ho
    rw [List.mem_singleton.mp ho, processers_setProcesser]
    exact hfirst

theorem proceeds_between (hpc : (s.processers_ p).pc.Between) (hpc' : x.pc.Between)
    (hrun : x.runningTask_ = none) (hqueue : x.runnableQueue_ = (s.processers_ p).runnableQueue_ ++ l) :
    Proceeds s (s.setProcesser p x) p tk [] := by
  intro k n hw hn
  have hfirst := hn none (by rw [upNext_between hpc]; exact List.mem_singleton_self _)
  refine ⟨?_, ?_⟩
  · unfold Waits
    rw [processers_setProcesser, hrun, hqueue]
    exact ⟨List.mem_append_left _ hw.1, nofun⟩
  · intro o ho
    rw [upNext_between (by rwa [processers_setProcesser])] at ho
    rw [List.mem_singleton.mp ho, processers_setProcesser, hqueue, rank_none_append hw.1]
    exact hfirst

theorem proceeds_swapIn (h : s.Coherent) (hpc : (s.processers_ p).pc = .loop)
    (hrun : (s.processers_ p).runningTask_ = some r) (hr : r ≠ tk) :
    Proceeds s (s.swapIn p r) p tk [r] := by
  intro k n hw hn
  have hmem := h.picked hpc hrun
  have hup : s.upNext p = [some r] := by
    unfold upNext
    simp only [hpc, hrun]
  have hfirst := hn (some r) (by rw [hup]; exact List.mem_singleton_self _)
  rw [← rank_after h.nodup_queue hmem hw.1 hr] at hfirst
  unfold swapIn
  refine ⟨?_, ?_⟩
  · unfold Waits
    rw [processers_setProcesser]
    refine ⟨hw.1, fun hrun' => ?_⟩
    change (s.processers_ p).runningTask_ = some tk at hrun'
    rw [hrun] at hrun'
    exact absurd (Option.some.inj hrun') hr
  · intro o ho
    unfold upNext at ho
    simp only [processers_setProcesser, hrun, Option.bind_some] at ho
    rw [List.mem_singleton.mp ho, processers_setProcesser, List.length_singleton]
    show rank (s.processers_ p).runnableQueue_ tk (after (s.processers_ p).runnableQueue_ r) +
      (k + 1) ≤ n
    omega

theorem Waits.ne (hw : s.Waits p tk) (hpc : (s.processers_ p).pc ≠ .loop)
    (hrun : (s.processers_ p).runningTask_ = some r) : tk ≠ r := by
  rintro rfl
  exact hpc (hw.2 hrun)

theorem proceeds_suspendErase (h : s.Coherent) (hpc : (s.processers_ p).pc = .suspending r) :
    Proceeds s (s.suspendErase p r) p tk [] := by
  intro k n hw hn
  obtain ⟨hrun, hmem, -, -⟩ := h.suspending hpc
  have hr := hw.ne (by rw [hpc]; nofun) hrun
  have hup : s.upNext p = [after (s.processers_ p).runnableQueue_ r] := by
    unfold upNext
    simp only [hpc, hrun, Option.bind_some]
  have hfirst := hn _ (by rw [hup]; exact List.mem_singleton_self _)
  obtain ⟨hnext, hnone⟩ := rank_erase h.nodup_queue hmem hw.1 hr
  have hproc : (s.suspendErase p r).processers_ p = { s.processers_ p with
      nextTask_ := after (s.processers_ p).runnableQueue_ r
      runnableQueue_ := (s.processers_ p).runnableQueue_.erase r
      pc := .suspended r } := by
    rw [← next_eq_after, ← erase_fst hmem]
    exact Function.update_self ..
  refine ⟨?_, ?_⟩
  · unfold Waits
    rw [hproc]
    refine ⟨(List.mem_erase_of_ne hr).mpr hw.1, fun hrun' => ?_⟩
    exact absurd (Option.some.inj (hrun.symm.trans hrun')) hr.symm
  · intro o ho
    have hsusp : (s.processers_ p).runningTask_.any
        (· ∈ (s.suspendErase p r).suspended) = true := by
      rw [hrun]
      exact decide_eq_true (List.mem_append_right _ (List.mem_singleton_self _))
    unfold upNext at ho
    simp only [hproc, if_pos hsusp, List.mem_cons, List.not_mem_nil, or_false] at ho
    rw [hproc, List.length_nil]
    rcases ho with rfl | rfl
    · simp only
      omega
    · simp only
      omega

theorem proceeds_doneErase (h : s.Coherent) (hpc : (s.processers_ p).pc = .doneErase)
    (hrun : (s.processers_ p).runningTask_ = some r) : Proceeds s (s.branch p r) p tk [] := by
  intro k n hw hn
  obtain ⟨hmem, -, hne⟩ := h.ended (.inr hpc) hrun
  have hr := hw.ne (by rw [hpc]; nofun) hrun
  have hup : s.upNext p = [(s.processers_ p).nextTask_] := by
    unfold upNext
    simp only [hpc]
  have hfirst := hn _ (by rw [hup]; exact List.mem_singleton_self _)
  have hle := rank_erase_of_ne hmem hr (fun c hc => h.next p c hc) (hne hpc)
  have hproc : (s.branch p r).processers_ p = { s.processers_ p with
      runnableQueue_ := (s.processers_ p).runnableQueue_.erase r
      pc := .doneAdvance } := by
    rw [← erase_fst hmem]
    unfold branch
    simp only [hpc]
    exact Function.update_self ..
  refine ⟨?_, ?_⟩
  · unfold Waits
    rw [hproc]
    refine ⟨(List.mem_erase_of_ne hr).mpr hw.1, fun hrun' => ?_⟩
    exact absurd (Option.some.inj (hrun.symm.trans hrun')) hr.symm
  · intro o ho
    unfold upNext at ho
    simp only [hproc] at ho
    rw [List.mem_singleton.mp ho, hproc, List.length_nil]
    simp only
    omega

/-- Behind `SwapIn` the state tells whether the task is suspended. -/
theorem Coherent.block_iff (h : s.Coherent) (hpc : (s.processers_ p).pc = .switched)
    (hrun : (s.processers_ p).runningTask_ = some r) :
    (s.task r).state_ = .block ↔ r ∈ s.suspended := by
  refine ⟨fun hblock => ?_, fun hr => (h.suspended r hr).1⟩
  have hphase := h.phase p
  rw [hpc, hrun] at hphase
  cases hphase with
  | leaving _ _ hat =>
      cases hat with
      | queued _ hstate => rw [hblock] at hstate; cases hstate
      | suspended hr => exact hr
      | woken hr =>
          obtain ⟨w, hw, rfl⟩ := List.mem_map.mp hr
          have hstate := (h.waking w hw).1
          rw [hblock] at hstate
          cases hstate
  | ended _ _ hstate => rw [hblock] at hstate; cases hstate

theorem proceeds_switched (h : s.Coherent) (hpc : (s.processers_ p).pc = .switched)
    (hrun : (s.processers_ p).runningTask_ = some r) : Proceeds s (s.branch p r) p tk [] := by
  have hne : s.Waits p tk → (s.processers_ p).runningTask_ ≠ some tk := by
    intro hw hrun'
    have hloop := hw.2 hrun'
    rw [hpc] at hloop
    cases hloop
  have hiff := h.block_iff hpc hrun
  have hany : (s.processers_ p).runningTask_.any (· ∈ s.suspended) = decide (r ∈ s.suspended) := by
    rw [hrun]
    rfl
  have hturns : ∀ pc : ProcessPc, (s.branch p r).processers_ p = { s.processers_ p with pc := pc } →
      (s.branch p r).upNext p ⊆ s.upNext p → Proceeds s (s.branch p r) p tk [] :=
    fun pc hproc hnext => proceeds_of hproc rfl (fun hw hrun' => absurd hrun' (hne hw)) hnext
  cases hstate : (s.task r).state_ with
  | block =>
      have hproc : (s.branch p r).processers_ p = { s.processers_ p with pc := .block } := by
        unfold branch
        simp only [hpc, hstate]
        exact Function.update_self ..
      apply hturns _ hproc
      have hr := hiff.mp hstate
      unfold upNext
      simp only [hproc, hpc, hany, decide_eq_true hr, if_true]
      exact List.cons_subset_cons _ (List.nil_subset _)
  | runnable =>
      have hproc : (s.branch p r).processers_ p = { s.processers_ p with pc := .runnable } := by
        unfold branch
        simp only [hpc, hstate]
        exact Function.update_self ..
      apply hturns _ hproc
      have hr : r ∉ s.suspended := fun hr => by
        rw [hiff.mpr hr] at hstate
        cases hstate
      unfold upNext
      simp only [hproc, hpc, hany, decide_eq_false hr]
      exact List.Subset.refl _
  | done =>
      have hproc : (s.branch p r).processers_ p = { s.processers_ p with pc := .doneNext } := by
        unfold branch
        simp only [hpc, hstate]
        exact Function.update_self ..
      apply hturns _ hproc
      have hr : r ∉ s.suspended := fun hr => by
        rw [hiff.mpr hr] at hstate
        cases hstate
      unfold upNext
      simp only [hproc, hpc, hany, decide_eq_false hr]
      exact List.Subset.refl _

theorem proceeds_branch (h : s.Coherent) (hout : (s.processers_ p).pc.SwappedOut)
    (hrun : (s.processers_ p).runningTask_ = some r) : Proceeds s (s.branch p r) p tk [] := by
  cases hpc : (s.processers_ p).pc with
  | switched => exact proceeds_switched h hpc hrun
  | doneErase => exact proceeds_doneErase h hpc hrun
  | block | doneAdvance =>
      refine proceeds_of (x := { s.processers_ p with
        runningTask_ := (s.processers_ p).nextTask_, nextTask_ := none, pc := .loop }) ?_ rfl
        (fun _ _ => rfl) ?_
      · unfold branch
        simp only [hpc]
        exact Function.update_self ..
      · unfold branch upNext
        simp only [hpc, processers_setProcesser]
        exact List.Subset.refl _
  | runnable =>
      refine proceeds_of (x := { s.processers_ p with
        runningTask_ := (s.processers_ p).runnableQueue_.nextWithoutLock r, pc := .loop }) ?_ rfl
        (fun _ _ => rfl) ?_
      · unfold branch
        simp only [hpc]
        exact Function.update_self ..
      · unfold branch upNext
        simp only [hpc, processers_setProcesser, hrun, Option.bind_some, next_eq_after]
        exact List.Subset.refl _
  | doneNext =>
      refine proceeds_of (x := { s.processers_ p with
        nextTask_ := (s.processers_ p).runnableQueue_.nextWithoutLock r, pc := .doneErase }) ?_ rfl
        ?_ ?_
      · unfold branch
        simp only [hpc]
        exact Function.update_self ..
      · intro hw hrun'
        have hloop := hw.2 hrun'
        rw [hpc] at hloop
        cases hloop
      · unfold branch upNext
        simp only [hpc, processers_setProcesser, hrun, Option.bind_some, next_eq_after]
        exact List.Subset.refl _
  | _ =>
      rw [hpc] at hout
      exact hout.elim

theorem swapsIn_nil (hpc : (s.processers_ p).pc ≠ .loop) : s.swapsIn p (.process p) = [] :=
  if_neg fun h => hpc h.2

theorem swapsIn_loop (hpc : (s.processers_ p).pc = .loop) :
    s.swapsIn p (.process p) = (s.processers_ p).runningTask_.toList :=
  if_pos ⟨rfl, hpc⟩

theorem proceeds_process (h : s.Coherent) (hs : s.process p = some t)
    (htk : tk ∉ s.swapsIn p (.process p)) :
    Proceeds s t p tk (s.swapsIn p (.process p)) := by
  cases processed hs with
  | front hpc | frontAgain hpc =>
      rw [swapsIn_nil (by rw [hpc]; nofun)]
      exact proceeds_front (by rw [hpc]; trivial)
  | @addEmpty idle hpc =>
      rw [swapsIn_nil (by rw [hpc]; nofun)]
      have hbetween : (s.processers_ p).pc.Between := by rw [hpc]; trivial
      refine proceeds_between hbetween ?_ (h.idle hbetween) (List.append_nil _).symm
      show ProcessPc.Between (if _ then _ else _)
      split
      · cases idle <;> trivial
      · trivial
  | addPop hpc | waitLoop hpc =>
      rw [swapsIn_nil (by rw [hpc]; nofun)]
      have hbetween : (s.processers_ p).pc.Between := by rw [hpc]; trivial
      exact proceeds_between hbetween (by trivial) (h.idle hbetween) (List.append_nil _).symm
  | @addPush idle elements hpc =>
      rw [swapsIn_nil (by rw [hpc]; nofun)]
      have hbetween : (s.processers_ p).pc.Between := by rw [hpc]; trivial
      refine proceeds_between hbetween ?_ (h.idle hbetween) rfl
      cases idle <;> trivial
  | @swapIn r hpc hrun =>
      rw [swapsIn_loop hpc, hrun] at htk ⊢
      exact proceeds_swapIn h hpc hrun fun hr => htk (hr ▸ List.mem_singleton_self r)
  | loopEnd hpc hrun =>
      rw [swapsIn_loop hpc, hrun]
      refine proceeds_of (processers_setProcesser ..) rfl (fun _ hrun' => ?_) ?_
      · rw [hrun] at hrun'
        cases hrun'
      · unfold upNext
        simp only [processers_setProcesser, hpc, hrun]
        exact List.Subset.refl _
  | suspendErase hpc =>
      rw [swapsIn_nil (by rw [hpc]; nofun)]
      exact proceeds_suspendErase h hpc
  | suspended hpc =>
      rw [swapsIn_nil (by rw [hpc]; nofun)]
      refine proceeds_of (processers_setProcesser ..) rfl (fun hw hrun => ?_) ?_
      · have hloop := hw.2 hrun
        rw [hpc] at hloop
        cases hloop
      · unfold upNext
        simp only [processers_setProcesser, hpc]
        exact List.Subset.refl _
  | branch hout hrun =>
      rw [swapsIn_nil (fun hpc => by rw [hpc] at hout; exact hout)]
      exact proceeds_branch h hout hrun
  | unpicked hout hrun => exact absurd hrun (h.running hout)

theorem Coherent.awake (h : s.Coherent) (hrun : (s.processers_ p).runningTask_ = some r)
    (hmem : r ∈ (s.processers_ p).runnableQueue_) :
    ¬ (s.processers_ p).runningTask_.any (· ∈ s.suspended) = true := by
  intro hsusp
  obtain ⟨r', hrun', hr'⟩ := any_suspended.mp hsusp
  rw [hrun] at hrun'
  cases hrun'
  exact h.tidy.not_shared (q := .runnable) (g := .suspended) hmem hr'

theorem proceeds_exec {pc : ProcessPc} (h : s.Coherent) (hpc : (s.processers_ p).pc = .exec r)
    (hproc : t.processers_ p = { s.processers_ p with pc := pc })
    (hsuspended : t.suspended = s.suspended) (hpc' : pc = .switched ∨ pc = .suspending r) :
    Proceeds s t p tk [] := by
  obtain ⟨hrun, hmem, -, -⟩ := h.exec hpc
  have hr := h.awake hrun hmem
  refine proceeds_of hproc rfl (fun hw hrun' => ?_) ?_
  · have hloop := hw.2 hrun'
    rw [hpc] at hloop
    cases hloop
  · unfold upNext
    simp only [hproc, hsuspended, hpc]
    rcases hpc' with rfl | rfl
    · simp only [if_neg hr]
      exact List.Subset.refl _
    · exact List.Subset.refl _

theorem proceeds_runOn (h : s.Coherent) (hpc : (s.processers_ p).pc = .suspended r)
    (hback : r ∉ s.suspended ∧ r ∉ s.waking.map Prod.fst) :
    Proceeds s (s.setProcesser p { s.processers_ p with pc := .exec r }) p tk [] := by
  obtain ⟨hrun, hmem, -, -⟩ := h.runsOn hpc hback
  have hr := h.awake hrun hmem
  refine proceeds_of (processers_setProcesser ..) rfl (fun hw hrun => ?_) ?_
  · have hloop := hw.2 hrun
    rw [hpc] at hloop
    cases hloop
  · unfold upNext
    simp only [processers_setProcesser, hpc, if_neg hr]
    exact List.Subset.refl _

theorem proceeds_own (h : s.Coherent) (hs : s.step e = some t) (hown : own p e = true)
    (htk : tk ∉ s.swapsIn p e) : Proceeds s t p tk (s.swapsIn p e) := by
  cases stepped hs with
  | process _ hs =>
      obtain rfl := of_decide_eq_true hown
      exact proceeds_process h hs htk
  | yield hpc =>
      obtain rfl := of_decide_eq_true hown
      exact proceeds_exec h hpc (processers_setProcesser ..) rfl (.inl rfl)
  | suspendBySelfIo hpc =>
      obtain rfl := of_decide_eq_true hown
      exact proceeds_exec h hpc (processers_setProcesser ..) rfl (.inr rfl)
  | runOn hpc hback =>
      obtain rfl := of_decide_eq_true hown
      exact proceeds_runOn h hpc hback
  | finish hpc =>
      obtain rfl := of_decide_eq_true hown
      exact proceeds_exec h hpc (processers_setProcesser ..) rfl (.inl rfl)
  | _ => cases hown

end Own

section Run

theorem swapsIn_of_not_own (hown : own p e = false) : s.swapsIn p e = [] := by
  cases e with
  | process p' =>
      apply if_neg
      rintro ⟨rfl, -⟩
      simp [own] at hown
  | _ => rfl

theorem wakes_of_own (hown : own p e = true) : s.wakes p e = [] := by
  cases e with
  | wakeupPush k => cases hown
  | _ => rfl

theorem turns_step (h : s.Coherent) (hs : s.step e = some t) (hunstolen : s.Unstolen p e)
    (htk : tk ∉ s.swapsIn p e) {k : Nat} (hw : s.Waits p tk) (hn : s.Within p tk k n) :
    t.Waits p tk ∧
      t.Within p tk (k + (s.swapsIn p e).length) (n + (s.wakes p e).length) := by
  cases hown : own p e with
  | false =>
      rw [swapsIn_of_not_own hown]
      exact (apart_step h hs hown hunstolen).within h (h.step hs) hw hn
  | true =>
      rw [wakes_of_own hown]
      exact proceeds_own h hs hown htk k n hw hn

theorem countP_turns : (s.turns p e).countP QueueEvent.isSwapIn = (s.swapsIn p e).length ∧
    (s.turns p e).countP QueueEvent.isWakeup = (s.wakes p e).length := by
  constructor <;>
    simp [turns, List.countP_map, Function.comp_def, QueueEvent.isSwapIn, QueueEvent.isWakeup]

/-- A queued task is swapped in before more than `n * (n - 1) / 2` others have been, where `n` is
the length of the queue, and one more for each task that is woken up in the meantime. -/
theorem turns_of_reach {os : List QueueEvent} (h : Machine.Reach step Machine.Free make s)
    (hw : s.Waits p tk)
    (hrun : Machine.Reach (Machine.observed step (turns p)) (fun w e => w.1.Unstolen p e) (s, [])
      (t, os)) :
    .swapIn tk ∈ os ∨ t.Waits p tk ∧ os.countP QueueEvent.isSwapIn ≤
      (s.processers_ p).runnableQueue_.length.choose 2 + os.countP QueueEvent.isWakeup := by
  have hcoh : s.Coherent := h.invariant coherent_make fun _ _ _ hcoh _ hs => hcoh.step hs
  have hinv := hrun.invariant (I := fun w => w.1.Coherent ∧ (.swapIn tk ∈ w.2 ∨
    w.1.Waits p tk ∧ w.1.Within p tk (w.2.countP QueueEvent.isSwapIn)
      ((s.processers_ p).runnableQueue_.length.choose 2 + w.2.countP QueueEvent.isWakeup)))
    ⟨hcoh, .inr ⟨hw, within_length hcoh hw⟩⟩ ?_
  · exact hinv.2.imp_right fun hin => ⟨hin.1, hin.2.le⟩
  · rintro ⟨u, os⟩ e ⟨v, os'⟩ ⟨hu, hturn⟩ hunstolen hobserved
    obtain ⟨hs, rfl⟩ := Machine.observed_eq_some.mp hobserved
    refine ⟨hu.step hs, ?_⟩
    rcases hturn with hin | ⟨hw, hn⟩
    · exact .inl (List.mem_append_left _ hin)
    · by_cases htk : tk ∈ u.swapsIn p e
      · left
        exact List.mem_append_right _ (List.mem_append_left _ (List.mem_map.mpr ⟨tk, htk, rfl⟩))
      · right
        obtain ⟨hcount, hcount'⟩ := countP_turns (s := u) (p := p) (e := e)
        simp only [List.countP_append, hcount, hcount', ← Nat.add_assoc]
        exact turns_step hu hs hunstolen htk hw hn

def queueThree : List SchedulerStep :=
  List.flatten [.replicate 3 (.createTask 8), .replicate 3 (.addTask 0), .replicate 5 (.process 0)]

/-- Task 0 is woken up before it has switched out, so the pass ends and task 1 runs next. -/
def wokenEarly : List SchedulerStep :=
  [.process 0, .suspendBySelfIo 0, .process 0, .wakeupBySelfIo 0, .wakeupPush 0, .process 0,
    .process 0, .process 0, .process 0, .process 0, .process 0, .process 0]

theorem turns_of_wokenEarly : ∃ s t os,
    Machine.Reach (Machine.observed step (turns 0)) (fun w e => w.1.Unstolen 0 e) (s, [])
      (t, os) ∧ os = [.swapIn 0, .wakeup 0, .swapIn 1] ∧ s.Waits 0 2 ∧
    (.swapIn 2 ∈ os ∨ t.Waits 0 2 ∧ os.countP QueueEvent.isSwapIn ≤
      (s.processers_ 0).runnableQueue_.length.choose 2 + os.countP QueueEvent.isWakeup) := by
  have hstart : (Machine.run step Machine.Free make queueThree).any (fun s =>
      (s.processers_ 0).runnableQueue_ = [0, 1, 2] ∧ (s.processers_ 0).runningTask_ = some 0 ∧
      (Machine.run (Machine.observed step (turns 0)) (fun w e => w.1.Unstolen 0 e) (s, [])
        wokenEarly).any fun w => w.2 = [.swapIn 0, .wakeup 0, .swapIn 1]) = true := by
    decide +kernel
  obtain ⟨s, hs, hqueue, hrun, hrest⟩ := Machine.exists_of_run hstart
  obtain ⟨⟨t, os⟩, ht, hos⟩ := Machine.exists_of_run hrest
  have hw : s.Waits 0 2 := by
    unfold Waits
    rw [hqueue, hrun]
    exact ⟨by decide, nofun⟩
  have hreach := Machine.reach_of_run wokenEarly ht
  exact ⟨s, t, os, hreach, hos, hw, turns_of_reach (Machine.reach_of_run queueThree hs) hw hreach⟩

end Run

end Scheduler

end CppGo.Scheduling
