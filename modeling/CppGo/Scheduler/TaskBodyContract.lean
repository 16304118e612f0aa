import CppGo.Scheduler.TaskBody
import CppGo.Scheduler.TaskCache

/-!
# What `Run` calls

`Run` tells the members of the union apart by `user_param_`, so it calls what `CreateTask` was
given unless that was a `TaskF1` with a null pointer.
-/

namespace CppGo.Scheduling

open CppGo.Lib

variable {F F1 P : Type*}

/-! ## The steps of the scheduler -/

theorem ProcessPc.turn_eq_none {pc : ProcessPc} {tk : TaskPtr} (hloop : pc ≠ .loop)
    (hdone : pc ≠ .doneAdvance) : pc.turn tk = none := by
  cases pc <;> first | rfl | contradiction

namespace Scheduler

variable {s t : Scheduler} {p : Nat} {tk : TaskPtr} {e : SchedulerStep}

structure Quiet (s t : Scheduler) : Prop where
  allocated : t.allocated = s.allocated
  cache : t.free_task_map_ = s.free_task_map_
  exec : ∀ p tk, t.Executes p tk → s.Executes p tk

theorem Quiet.refl : Quiet s s where
  allocated := rfl
  cache := rfl
  exec _ _ h := h

theorem Quiet.of_same (halloc : t.allocated = s.allocated)
    (hcache : t.free_task_map_ = s.free_task_map_) (hproc : t.processers_ = s.processers_) :
    Quiet s t where
  allocated := halloc
  cache := hcache
  exec p tk h := by rwa [Executes, hproc] at h

theorem Quiet.of_set {x : Processer} (halloc : t.allocated = s.allocated)
    (hcache : t.free_task_map_ = s.free_task_map_)
    (hproc : t.processers_ = Function.update s.processers_ p x)
    (hpc : ∀ tk, x.pc.executing = some tk → (s.processers_ p).pc.executing = some tk) :
    Quiet s t where
  allocated := halloc
  cache := hcache
  exec p' tk h := by
    rw [executes_iff, hproc] at h
    rw [executes_iff]
    by_cases hp : p' = p
    · subst hp
      rw [Function.update_self] at h
      exact hpc tk h
    · rwa [Function.update_of_ne hp] at h

theorem Quiet.of_executing {x : Processer} (halloc : t.allocated = s.allocated)
    (hcache : t.free_task_map_ = s.free_task_map_)
    (hproc : t.processers_ = Function.update s.processers_ p x)
    (hpc : x.pc.executing = (s.processers_ p).pc.executing) : Quiet s t :=
  .of_set halloc hcache hproc fun _ h => hpc ▸ h

theorem exec_swapIn {p' : Nat} {tk' : TaskPtr}
    (h : (s.swapIn p tk).Executes p' tk') : tk' = tk ∨ s.Executes p' tk' := by
  have hproc : (s.swapIn p tk).processers_ =
      Function.update s.processers_ p { s.processers_ p with pc := .exec tk } := rfl
  rw [executes_iff, hproc] at h
  rw [executes_iff]
  by_cases hp : p' = p
  · subst hp
    rw [Function.update_self] at h
    cases h
    exact .inl rfl
  · rw [Function.update_of_ne hp] at h
    exact .inr h

inductive Turns (s : Scheduler) : Option Turn → Scheduler → Prop
  | enter {p : Nat} {tk : TaskPtr} (hpc : (s.processers_ p).pc = .loop)
      (hrun : (s.processers_ p).runningTask_ = some tk) : Turns s (some (.enter tk)) (s.swapIn p tk)
  | ended {p : Nat} {tk : TaskPtr} (hpc : (s.processers_ p).pc = .exec tk) :
      Turns s (some (.ended tk)) (s.finish p tk)
  | reset {p : Nat} {tk : TaskPtr} (hpc : (s.processers_ p).pc = .doneAdvance)
      (hrun : (s.processers_ p).runningTask_ = some tk) {t : Scheduler}
      (hquiet : Quiet (s.add2FreeTaskList tk) t) : Turns s (some (.reset tk)) t
  | none {t : Scheduler} (hquiet : Quiet s t) : Turns s none t

theorem quiet_branch (hdone : (s.processers_ p).pc ≠ .doneAdvance) : Quiet s (s.branch p tk) := by
  unfold branch
  simp only
  split
  case h_1 =>
    refine .of_set rfl rfl rfl ?_
    intro tk' h
    cases hstate : (s.task tk).state_ <;> simp [hstate, ProcessPc.executing] at h
  case h_6 hpc => exact absurd hpc hdone
  case h_7 => exact .refl
  all_goals
    refine .of_set rfl rfl rfl ?_
    intro tk' h
    cases h

theorem quiet_process (hloop : (s.processers_ p).pc ≠ .loop)
    (hdone : (s.processers_ p).pc ≠ .doneAdvance) (hs : s.process p = some t) : Quiet s t := by
  cases processed hs with
  | swapIn hpc | loopEnd hpc => exact absurd hpc hloop
  | branch => exact quiet_branch hdone
  | unpicked => exact .of_same rfl rfl rfl
  | suspendErase hpc => exact .of_executing rfl rfl rfl (by rw [hpc]; rfl)
  | addPop | waitLoop | suspended => exact .of_set rfl rfl rfl nofun
  | front | addEmpty | addPush | frontAgain =>
      refine .of_set rfl rfl rfl ?_
      intro tk h
      simp only at h
      first
        | split at h <;> cases h
        | split at h <;> first | cases h | split at h <;> cases h

theorem turns_process (hs : s.process p = some t) : Turns s (s.turn (.process p)) t := by
  have hturn : s.turn (.process p) =
      (s.processers_ p).runningTask_.bind fun tk => (s.processers_ p).pc.turn tk := rfl
  rw [hturn]
  by_cases hloop : (s.processers_ p).pc = .loop
  · cases processed hs with
    | swapIn _ hrun =>
        rw [hloop, hrun]
        exact .enter hloop hrun
    | loopEnd _ hrun =>
        rw [hrun]
        exact .none (.of_set rfl rfl rfl nofun)
    | _ => simp_all [ProcessPc.SwappedOut]
  · by_cases hdone : (s.processers_ p).pc = .doneAdvance
    · cases processed hs with
      | @branch tk _ hrun =>
          have hquiet : Quiet (s.add2FreeTaskList tk) (s.branch p tk) := by
            unfold branch
            simp only [hdone]
            exact .of_set rfl rfl rfl nofun
          rw [hdone, hrun]
          exact .reset hdone hrun hquiet
      | unpicked _ hrun =>
          rw [hrun]
          exact .none (.of_same rfl rfl rfl)
      | _ => simp_all
    · have hnone : ((s.processers_ p).runningTask_.bind fun tk => (s.processers_ p).pc.turn tk) =
          none := by
        cases (s.processers_ p).runningTask_ with
        | none => rfl
        | some tk => exact ProcessPc.turn_eq_none hloop hdone
      rw [hnone]
      exact .none (quiet_process hloop hdone hs)

theorem Quiet.of_queues {x : Processer} (halloc : t.allocated = s.allocated)
    (hcache : t.free_task_map_ = s.free_task_map_)
    (hproc : t.processers_ = Function.update s.processers_ p x)
    (hpc : x.pc = (s.processers_ p).pc) : Quiet s t :=
  .of_executing halloc hcache hproc (by rw [hpc])

theorem quiet_avgTotalTasks : Quiet s s.avgTotalTasks := by
  unfold avgTotalTasks
  split
  case h_1 => split <;> exact .of_same rfl rfl rfl
  case h_2 =>
    simp only
    split <;> exact .of_same rfl rfl rfl
  case h_3 => exact .of_same rfl rfl rfl
  case h_4 =>
    unfold steal
    split
    · simp only
      split
      · exact .of_queues rfl rfl rfl rfl
      · exact .of_same rfl rfl rfl
    · exact .of_same rfl rfl rfl
  case h_5 => exact .of_queues rfl rfl rfl rfl
  case h_6 =>
    unfold deal
    split
    · simp only
      split <;> exact .of_same rfl rfl rfl
    · exact .of_same rfl rfl rfl
  case h_7 => exact .of_queues rfl rfl rfl rfl
  case h_8 =>
    split
    · exact .of_same rfl rfl rfl
    · exact .of_queues rfl rfl rfl rfl

theorem quiet_wakeupBySelfIo : Quiet s (s.wakeupBySelfIo tk) := by
  unfold wakeupBySelfIo
  split <;> exact .of_same rfl rfl rfl

theorem turns_of_step (he : ∀ n, e ≠ .createTask n) (hs : s.step e = some t) :
    Turns s (s.turn e) t := by
  cases stepped hs with
  | newProcessThread => exact .none (.of_same rfl rfl rfl)
  | createTask n => exact absurd rfl (he n)
  | addTask => exact .none (.of_queues rfl rfl rfl rfl)
  | process _ hs => exact turns_process hs
  | yield => exact .none (.of_set rfl rfl rfl nofun)
  | suspendBySelfIo hpc | runOn hpc => exact .none (.of_executing rfl rfl rfl (by rw [hpc]; rfl))
  | @finish p tk hpc =>
      have hturn : s.turn (.finish p) = some (.ended tk) := by
        simp only [turn, hpc]
      rw [hturn]
      exact .ended hpc
  | wakeupBySelfIo => exact .none quiet_wakeupBySelfIo
  | wakeupPush => exact .none (.of_queues rfl rfl rfl rfl)
  | avgTotalTasks => exact .none quiet_avgTotalTasks

end Scheduler

/-! ## One task -/

/-- `Run` finds out from the parameter which function the request is about. -/
def Request.Recognized : Request F F1 P → Prop
  | .taskF _ => True
  | .taskF1 _ user_param => user_param ≠ none

def Body.Holds (b : Body F F1 P) : Request F F1 P → Prop
  | .taskF fn => b.callable = .fn_ fn ∧ b.user_param_ = none
  | .taskF1 fn1 user_param => b.callable = .fn1_ fn1 ∧ b.user_param_ = user_param

theorem Body.holds_make (r : Request F F1 P) : (Body.make r).Holds r := by
  cases r <;> exact ⟨rfl, rfl⟩

/-- A task that has been reset is as good as a new one. -/
theorem Body.holds_reInit {b : Body F F1 P} (h : b.user_param_ = none) (r : Request F F1 P) :
    (b.reInit r).Holds r := by
  cases r with
  | taskF fn => exact ⟨rfl, h⟩
  | taskF1 fn1 user_param => exact ⟨rfl, rfl⟩

theorem Body.run_exact {b : Body F F1 P} {r : Request F F1 P} {k : Nat} (h : b.Holds r) :
    (Invocation.mk k b.callable b.run).Active ∧ (Invocation.mk k b.callable b.run).Exact r ↔
      r.Recognized := by
  unfold Body.run
  cases r with
  | taskF fn =>
      obtain ⟨hcallable, hparam⟩ := h
      rw [hcallable, hparam]
      exact ⟨fun _ => trivial, fun _ => ⟨trivial, rfl, rfl⟩⟩
  | taskF1 fn1 user_param =>
      obtain ⟨hcallable, hparam⟩ := h
      rw [hcallable, hparam]
      cases user_param with
      | none => exact ⟨fun hrun => hrun.1.elim, fun hsome => absurd rfl hsome⟩
      | some x => exact ⟨fun _ => nofun, fun _ => ⟨trivial, rfl, rfl⟩⟩

/-! ## All tasks -/

namespace TaskBodies

open Scheduler

variable {m : TaskBodies F F1 P} {s t : Scheduler} {p k : Nat} {tk : TaskPtr}

structure Waits (m : TaskBodies F F1 P) (tk : TaskPtr) : Prop where
  allocated : tk < m.scheduler.allocated
  used : tk ∉ m.scheduler.free_task_map_.values
  start : (m.body tk).ctx_ = .staticRun

/-- The call is of the task that `CreateTask` has given out, as far as that was possible. -/
def Answers (m : TaskBodies F F1 P) (i : Invocation F F1 P) : Prop :=
  ∃ r, m.requests[i.request]? = some r ∧ (i.Active ∧ i.Exact r ↔ r.Recognized)

/-- A waiting task has the fields of the call of `CreateTask` that has given it out, for which
nothing has run yet. -/
structure Consistent (m : TaskBodies F F1 P) : Prop where
  coherent : m.scheduler.Coherent
  reset : ∀ tk ∈ m.scheduler.free_task_map_.values, (m.body tk).user_param_ = none
  inside : ∀ p tk, m.scheduler.Executes p tk → (m.body tk).ctx_ = .inside
  holds : ∀ tk, m.Waits tk → ∃ r, m.requests[m.created tk]? = some r ∧ (m.body tk).Holds r
  distinct : ∀ tk tk', m.Waits tk → m.Waits tk' → m.created tk = m.created tk' → tk = tk'
  unrun : ∀ tk, m.Waits tk → ∀ i ∈ m.runs, i.request ≠ m.created tk
  answers : ∀ i ∈ m.runs, m.Answers i
  once : (m.runs.map Invocation.request).Nodup

theorem consistent_make : (make : TaskBodies F F1 P).Consistent where
  coherent := coherent_make
  reset _ h := absurd h List.not_mem_nil
  inside _ _ _ := rfl
  holds _ h := absurd h.allocated (Nat.not_lt_zero _)
  distinct _ _ h := absurd h.allocated (Nat.not_lt_zero _)
  unrun _ h := absurd h.allocated (Nat.not_lt_zero _)
  answers _ h := absurd h List.not_mem_nil
  once := List.nodup_nil

theorem Consistent.quiet (h : m.Consistent) (hc : s.Coherent)
    (halloc : s.allocated = m.scheduler.allocated)
    (hcache : s.free_task_map_ = m.scheduler.free_task_map_)
    (hexec : ∀ p tk, s.Executes p tk → (m.body tk).ctx_ = .inside) :
    ({ m with scheduler := s } : TaskBodies F F1 P).Consistent := by
  have hwaits : ∀ tk, ({ m with scheduler := s } : TaskBodies F F1 P).Waits tk → m.Waits tk :=
    fun tk hw => ⟨halloc ▸ hw.allocated, hcache ▸ hw.used, hw.start⟩
  exact {
    coherent := hc
    reset := fun tk htk => h.reset tk (hcache ▸ htk)
    inside := hexec
    holds := fun tk hw => h.holds tk (hwaits tk hw)
    distinct := fun tk tk' hw hw' => h.distinct tk tk' (hwaits tk hw) (hwaits tk' hw')
    unrun := fun tk hw => h.unrun tk (hwaits tk hw)
    answers := h.answers
    once := h.once }

/-! ## A task runs -/

section Run

variable {b : Body F F1 P}

theorem body_setBody_of_ne {tk' : TaskPtr} (h : tk' ≠ tk) :
    (m.setBody tk b).body tk' = m.body tk' :=
  Function.update_of_ne h ..

theorem body_setBody_self : (m.setBody tk b).body tk = b := Function.update_self ..

theorem Waits.of_setBody {tk' : TaskPtr} (hctx : b.ctx_ = .inside)
    (hw : (m.setBody tk b).Waits tk') : tk' ≠ tk ∧ m.Waits tk' := by
  have hstart := hw.start
  by_cases htk : tk' = tk
  · subst htk
    rw [body_setBody_self, hctx] at hstart
    cases hstart
  · rw [body_setBody_of_ne htk] at hstart
    exact ⟨htk, hw.allocated, hw.used, hstart⟩

theorem Consistent.setBody (h : m.Consistent) (hctx : b.ctx_ = .inside)
    (hparam : b.user_param_ = (m.body tk).user_param_) : (m.setBody tk b).Consistent where
  coherent := h.coherent
  reset tk' htk' := by
    have hreset := h.reset tk' htk'
    by_cases htk : tk' = tk
    · subst htk
      rw [body_setBody_self, hparam]
      exact hreset
    · rw [body_setBody_of_ne htk]
      exact hreset
  inside p tk' hpc := by
    have hinside := h.inside p tk' hpc
    by_cases htk : tk' = tk
    · subst htk
      rw [body_setBody_self]
      exact hctx
    · rw [body_setBody_of_ne htk]
      exact hinside
  holds tk' hw := by
    obtain ⟨htk, hw⟩ := hw.of_setBody hctx
    rw [body_setBody_of_ne htk]
    exact h.holds tk' hw
  distinct tk₁ tk₂ hw₁ hw₂ :=
    h.distinct tk₁ tk₂ (hw₁.of_setBody hctx).2 (hw₂.of_setBody hctx).2
  unrun tk' hw := h.unrun tk' (hw.of_setBody hctx).2
  answers := h.answers
  once := h.once

theorem Consistent.record {i : Invocation F F1 P} (h : m.Consistent) (hi : m.Answers i)
    (hwaiting : ∀ tk, m.Waits tk → i.request ≠ m.created tk)
    (hnew : ∀ j ∈ m.runs, j.request ≠ i.request) :
    ({ m with runs := m.runs ++ [i] } : TaskBodies F F1 P).Consistent := by
  have hwaits : ∀ tk, ({ m with runs := m.runs ++ [i] } : TaskBodies F F1 P).Waits tk →
      m.Waits tk :=
    fun tk hw => ⟨hw.allocated, hw.used, hw.start⟩
  refine {
    coherent := h.coherent
    reset := h.reset
    inside := h.inside
    holds := fun tk hw => h.holds tk (hwaits tk hw)
    distinct := fun tk tk' hw hw' => h.distinct tk tk' (hwaits tk hw) (hwaits tk' hw')
    unrun := ?_
    answers := ?_
    once := ?_ }
  · intro tk hw j hj
    rcases List.mem_append.mp hj with hj | hj
    · exact h.unrun tk (hwaits tk hw) j hj
    · rw [List.mem_singleton.mp hj]
      exact hwaiting tk (hwaits tk hw)
  · intro j hj
    rcases List.mem_append.mp hj with hj | hj
    · exact h.answers j hj
    · rw [List.mem_singleton.mp hj]
      exact hi
  · show ((m.runs ++ [i]).map Invocation.request).Nodup
    rw [List.map_append, List.nodup_append_comm]
    apply List.nodup_cons.mpr
    refine ⟨?_, h.once⟩
    intro hmem
    obtain ⟨j, hj, heq⟩ := List.mem_map.mp hmem
    exact hnew j hj heq

theorem Consistent.enter (h : m.Consistent) (halloc : tk < m.scheduler.allocated)
    (hused : tk ∉ m.scheduler.free_task_map_.values) : (m.enter tk).Consistent := by
  unfold TaskBodies.enter
  split
  case h_2 => exact h
  case h_1 hstart =>
    have hw : m.Waits tk := ⟨halloc, hused, hstart⟩
    obtain ⟨r, hr, hholds⟩ := h.holds tk hw
    have hset : (m.setBody tk { m.body tk with ctx_ := .inside }).Consistent := h.setBody rfl rfl
    apply hset.record
    · exact ⟨r, hr, Body.run_exact hholds⟩
    · intro tk' hw' heq
      obtain ⟨htk, hw'⟩ := hw'.of_setBody rfl
      exact htk (h.distinct tk tk' hw hw' heq).symm
    · exact h.unrun tk hw

theorem Consistent.cached (h : m.Consistent) (hc : s.Coherent)
    (halloc : s.allocated = m.scheduler.allocated)
    (hcache : s.free_task_map_.values.Perm (tk :: m.scheduler.free_task_map_.values))
    (hexec : ∀ p tk, s.Executes p tk → m.scheduler.Executes p tk) :
    ({ m.setBody tk (m.body tk).reset with scheduler := s } : TaskBodies F F1 P).Consistent := by
  have hwaits : ∀ tk', ({ m.setBody tk (m.body tk).reset with scheduler := s } :
      TaskBodies F F1 P).Waits tk' → tk' ≠ tk ∧ m.Waits tk' := by
    intro tk' hw
    have hused := hw.used
    rw [hcache.mem_iff, List.mem_cons, not_or] at hused
    have hstart := hw.start
    have hbody : (m.setBody tk (m.body tk).reset).body tk' = m.body tk' :=
      body_setBody_of_ne hused.1
    exact ⟨hused.1, halloc ▸ hw.allocated, hused.2, hbody ▸ hstart⟩
  refine {
    coherent := hc
    reset := ?_
    inside := ?_
    holds := ?_
    distinct := fun tk₁ tk₂ hw₁ hw₂ =>
      h.distinct tk₁ tk₂ (hwaits tk₁ hw₁).2 (hwaits tk₂ hw₂).2
    unrun := fun tk' hw => h.unrun tk' (hwaits tk' hw).2
    answers := h.answers
    once := h.once }
  · intro tk' htk'
    show ((m.setBody tk (m.body tk).reset).body tk').user_param_ = none
    by_cases htk : tk' = tk
    · subst htk
      rw [body_setBody_self]
      rfl
    · rw [body_setBody_of_ne htk]
      rw [hcache.mem_iff, List.mem_cons] at htk'
      exact h.reset tk' (htk'.resolve_left htk)
  · intro p tk' hpc
    have hinside := h.inside p tk' (hexec p tk' hpc)
    show ((m.setBody tk (m.body tk).reset).body tk').ctx_ = .inside
    by_cases htk : tk' = tk
    · subst htk
      rw [body_setBody_self]
      exact hinside
    · rw [body_setBody_of_ne htk]
      exact hinside
  · intro tk' hw
    obtain ⟨htk, hold⟩ := hwaits tk' hw
    show ∃ r, _ ∧ ((m.setBody tk (m.body tk).reset).body tk').Holds r
    rw [body_setBody_of_ne htk]
    exact h.holds tk' hold

end Run

/-! ## `CreateTask` -/

section Create

variable {b : Body F F1 P} {r : Request F F1 P}

def giveOut (m : TaskBodies F F1 P) (s : Scheduler) (tk : TaskPtr) (b : Body F F1 P)
    (r : Request F F1 P) : TaskBodies F F1 P :=
  { m.setBody tk b with
    scheduler := s
    created := Function.update m.created tk m.requests.length
    requests := m.requests ++ [r] }

structure Takes (m : TaskBodies F F1 P) (s : Scheduler) (tk : TaskPtr) : Prop where
  processers : s.processers_ = m.scheduler.processers_
  idle : ∀ p, ¬ m.scheduler.Executes p tk
  cache : s.free_task_map_.values ⊆ m.scheduler.free_task_map_.values
  taken : tk ∉ s.free_task_map_.values
  others : ∀ tk' ≠ tk, tk' < s.allocated → tk' ∉ s.free_task_map_.values →
    tk' < m.scheduler.allocated ∧ tk' ∉ m.scheduler.free_task_map_.values

theorem giveOut_self : (m.giveOut s tk b r).body tk = b ∧
    (m.giveOut s tk b r).created tk = m.requests.length :=
  ⟨body_setBody_self, Function.update_self ..⟩

theorem giveOut_of_ne {tk' : TaskPtr} (h : tk' ≠ tk) :
    (m.giveOut s tk b r).body tk' = m.body tk' ∧
      (m.giveOut s tk b r).created tk' = m.created tk' :=
  ⟨body_setBody_of_ne h, Function.update_of_ne h ..⟩

theorem Waits.of_giveOut {tk' : TaskPtr} (h : m.Takes s tk) (htk : tk' ≠ tk)
    (hw : (m.giveOut s tk b r).Waits tk') : m.Waits tk' := by
  obtain ⟨halloc, hused⟩ := h.others tk' htk hw.allocated hw.used
  have hstart := hw.start
  rw [(giveOut_of_ne htk).1] at hstart
  exact ⟨halloc, hused, hstart⟩

theorem Consistent.created_lt (h : m.Consistent) (hw : m.Waits tk) :
    m.created tk < m.requests.length := by
  obtain ⟨r, hr, -⟩ := h.holds tk hw
  exact (List.getElem?_eq_some_iff.mp hr).1

theorem getElem?_giveOut {r' : Request F F1 P} (h : m.requests[k]? = some r') :
    (m.giveOut s tk b r).requests[k]? = some r' := by
  have hlt := (List.getElem?_eq_some_iff.mp h).1
  show (m.requests ++ [r])[k]? = some r'
  rw [List.getElem?_append_left hlt, h]

theorem Consistent.giveOut (h : m.Consistent) (hc : s.Coherent) (ht : m.Takes s tk)
    (hb : b.Holds r) : (m.giveOut s tk b r).Consistent := by
  constructor
  case coherent => exact hc
  case reset =>
    intro tk' htk'
    have htk : tk' ≠ tk := fun heq => ht.taken (heq ▸ htk')
    rw [(giveOut_of_ne htk).1]
    exact h.reset tk' (ht.cache htk')
  case inside =>
    intro p tk' hpc
    change s.Executes p tk' at hpc
    rw [Executes, ht.processers] at hpc
    have hpc : m.scheduler.Executes p tk' := hpc
    have htk : tk' ≠ tk := fun heq => ht.idle p (heq ▸ hpc)
    rw [(giveOut_of_ne htk).1]
    exact h.inside p tk' hpc
  case holds =>
    intro tk' hw
    by_cases htk : tk' = tk
    · subst htk
      rw [giveOut_self.1, giveOut_self.2]
      exact ⟨r, List.getElem?_concat_length, hb⟩
    · obtain ⟨r', hr', hholds⟩ := h.holds tk' (hw.of_giveOut ht htk)
      rw [(giveOut_of_ne htk).1, (giveOut_of_ne htk).2]
      exact ⟨r', getElem?_giveOut hr', hholds⟩
  case distinct =>
    -- the number of this call is larger than that of any task that waits already
    have hnew : ∀ tk' ≠ tk, (m.giveOut s tk b r).Waits tk' →
        (m.giveOut s tk b r).created tk' < m.requests.length := by
      intro tk' htk hw
      rw [(giveOut_of_ne htk).2]
      exact h.created_lt (hw.of_giveOut ht htk)
    intro tk₁ tk₂ hw₁ hw₂ heq
    by_cases h₁ : tk₁ = tk
    · by_cases h₂ : tk₂ = tk
      · rw [h₁, h₂]
      · have hlt := hnew tk₂ h₂ hw₂
        rw [h₁, giveOut_self.2] at heq
        omega
    · by_cases h₂ : tk₂ = tk
      · have hlt := hnew tk₁ h₁ hw₁
        rw [h₂, giveOut_self.2] at heq
        omega
      · rw [(giveOut_of_ne h₁).2, (giveOut_of_ne h₂).2] at heq
        exact h.distinct tk₁ tk₂ (hw₁.of_giveOut ht h₁) (hw₂.of_giveOut ht h₂) heq
  case unrun =>
    intro tk' hw i hi
    by_cases htk : tk' = tk
    · subst htk
      obtain ⟨r', hr', -⟩ := h.answers i hi
      rw [giveOut_self.2]
      exact Nat.ne_of_lt (List.getElem?_eq_some_iff.mp hr').1
    · rw [(giveOut_of_ne htk).2]
      exact h.unrun tk' (hw.of_giveOut ht htk) i hi
  case answers =>
    intro i hi
    obtain ⟨r', hr', hexact⟩ := h.answers i hi
    exact ⟨r', getElem?_giveOut hr', hexact⟩
  case once => exact h.once

theorem Consistent.takes_new (h : m.Consistent) (p k : Nat) (n : Int) :
    m.Takes { (m.scheduler.newTask n).1 with
      lastActive_ := k
      creating := m.scheduler.creating ++ [(m.scheduler.allocated, p)] }
      m.scheduler.allocated where
  processers := rfl
  idle p hpc := Nat.lt_irrefl _ (h.coherent.lt_allocated (h.coherent.executing hpc).1)
  cache := List.Subset.refl _
  taken hmem := by
    have hlt := (h.coherent.tidy.mem_iff m.scheduler.allocated).mpr ⟨.shared .free, hmem⟩
    exact Nat.lt_irrefl _ hlt
  others _ htk halloc hused := ⟨Nat.lt_of_le_of_ne (Nat.le_of_lt_succ halloc) htk, hused⟩

theorem Consistent.takes_free {itr : Node Int TaskPtr} (h : m.Consistent)
    (hitr : itr ∈ m.scheduler.free_task_map_.nodes) (p k : Nat) :
    m.Takes { m.scheduler with
      free_task_map_ := m.scheduler.free_task_map_.erase itr.id
      lastActive_ := k
      creating := m.scheduler.creating ++ [(itr.value, p)] } itr.value := by
  have hperm := Multimap.values_erase hitr
  have hnodup := hperm.nodup_iff.mp (h.coherent.tidy.nodup (.shared .free))
  constructor
  case processers => rfl
  case idle =>
    intro p hpc
    have hfree : itr.value ∈ m.scheduler.free_task_map_.values := List.mem_map_of_mem hitr
    rcases (h.coherent.executing hpc).2.2 with hmem | hmem | hmem
    · exact h.coherent.not_free (i := .processer p .runnable) hmem processer_ne_shared hfree
    · exact h.coherent.not_free (i := .shared .suspended) hmem (by simp) hfree
    · exact h.coherent.not_free (i := .shared .waking) hmem (by simp) hfree
  case cache => exact fun _ htk => hperm.mem_iff.mpr (List.mem_cons_of_mem _ htk)
  case taken => exact (List.nodup_cons.mp hnodup).1
  case others =>
    intro tk' htk halloc hused
    refine ⟨halloc, ?_⟩
    rw [hperm.mem_iff, List.mem_cons, not_or]
    exact ⟨htk, hused⟩

theorem Consistent.createTask (h : m.Consistent) (r : Request F F1 P) (n : Int) :
    (m.createTask r n).Consistent := by
  have hc := h.coherent.createTask n
  have hcreated := m.scheduler.created n
  unfold TaskBodies.createTask getFreeTaskList
  generalize m.scheduler.createTask n = s at *
  cases hcreated with
  | reused hitr p k =>
      have hmem := Multimap.mem_of_lowerBound hitr
      have hreset := h.reset _ (List.mem_map_of_mem hmem)
      rw [hitr]
      exact h.giveOut hc (h.takes_free hmem p k) (Body.holds_reInit hreset r)
  | new hnone p k =>
      rw [hnone]
      exact h.giveOut hc (h.takes_new p k n) (Body.holds_make r)

end Create

/-! ## Every run -/

theorem Consistent.scheduler {e : SchedulerStep} (h : m.Consistent)
    (he : ∀ n, e ≠ .createTask n) (hs : m.scheduler.step e = some s) :
    ({ m.apply (m.scheduler.turn e) with scheduler := s } : TaskBodies F F1 P).Consistent := by
  have hc := h.coherent.step hs
  have hturns := turns_of_step he hs
  generalize m.scheduler.turn e = turn at hturns
  cases hturns with
  | @enter p tk hpc hrun =>
      have hmem : tk ∈ m.scheduler.contents (.processer p .runnable) := h.coherent.picked hpc hrun
      have hentered : (m.enter tk).Consistent := by
        apply h.enter (h.coherent.lt_allocated hrun)
        exact h.coherent.not_free hmem processer_ne_shared
      have hscheduler : (m.enter tk).scheduler = m.scheduler := by
        unfold TaskBodies.enter
        split <;> rfl
      have hinside : ((m.enter tk).body tk).ctx_ = .inside := by
        unfold TaskBodies.enter
        split
        · exact congrArg Body.ctx_ body_setBody_self
        · assumption
      apply hentered.quiet hc
      · rw [hscheduler]
        rfl
      · rw [hscheduler]
        rfl
      · intro p' tk' hpc'
        rcases exec_swapIn hpc' with rfl | hpc'
        · exact hinside
        · apply hentered.inside p' tk'
          rw [hscheduler]
          exact hpc'
  | @ended p tk hpc =>
      have hended : (m.setBody tk (m.body tk).ended).Consistent :=
        h.setBody (h.inside p tk (.inl hpc)) rfl
      have hquiet : Quiet m.scheduler (m.scheduler.finish p tk) := .of_set rfl rfl rfl nofun
      exact hended.quiet hc rfl rfl fun p' tk' hpc' =>
        hended.inside p' tk' (hquiet.exec p' tk' hpc')
  | @reset p tk hpc hrun _ hquiet =>
      apply h.cached hc hquiet.allocated
      · rw [hquiet.cache]
        exact Multimap.values_insert _ _
      · exact hquiet.exec
  | none hquiet =>
      exact h.quiet hc hquiet.allocated hquiet.cache fun p tk hpc =>
        h.inside p tk (hquiet.exec p tk hpc)

theorem Consistent.step {e : BodyStep F F1 P} {m' : TaskBodies F F1 P} (h : m.Consistent)
    (hs : m.step e = some m') : m'.Consistent := by
  cases e with
  | createTask r n =>
      cases hs
      exact h.createTask r n
  | scheduler e =>
      have hne : ∀ n, e ≠ .createTask n := by
        rintro n rfl
        cases hs
      have hmap : m.step (.scheduler e) = (m.scheduler.step e).map fun s =>
          { m.apply (m.scheduler.turn e) with scheduler := s } := by
        cases e <;> first | rfl | exact absurd rfl (hne _)
      rw [hmap] at hs
      obtain ⟨s, hstep, rfl⟩ := Option.map_eq_some_iff.mp hs
      exact h.scheduler hne hstep

/-- In every state reached, each call that `Run` has made answers a call of `CreateTask`, no two
the same, and it is the call asked for exactly if `Run` could find out. -/
theorem answers_of_reach (h : Machine.Reach step Machine.Free make m) :
    (∀ i ∈ m.runs, ∃ r, m.requests[i.request]? = some r ∧
      (i.Active ∧ i.Exact r ↔ r.Recognized)) ∧
    (m.runs.map Invocation.request).Nodup := by
  have hm : m.Consistent := h.invariant consistent_make fun _ _ _ hm _ hs => hm.step hs
  exact ⟨hm.answers, hm.once⟩

def runTask (r : Request Nat Nat Nat) : List (BodyStep Nat Nat Nat) :=
  [.createTask r 8, .scheduler (.addTask 0)] ++ .replicate 6 (.scheduler (.process 0))

def endTask : List (BodyStep Nat Nat Nat) :=
  [.scheduler (.finish 0)] ++ .replicate 4 (.scheduler (.process 0))

/-- A task with a parameter ends, and its object is used again for one without. -/
theorem answers_reused : ∃ m : TaskBodies Nat Nat Nat,
    (m.scheduler.allocated = 1 ∧
      m.runs = [⟨0, .fn1_ (some 5), .fn1_ (some 7)⟩, ⟨1, .fn_ (some 6), .fn_⟩]) ∧
    (∀ i ∈ m.runs, ∃ r, m.requests[i.request]? = some r ∧
      (i.Active ∧ i.Exact r ↔ r.Recognized)) ∧
    (m.runs.map Invocation.request).Nodup := by
  have hrun : ∃ m, Machine.run step Machine.Free make
      (runTask (.taskF1 (some 5) (some 7)) ++ endTask ++ runTask (.taskF (some 6))) = some m ∧
      m.scheduler.allocated = 1 ∧
      m.runs = [⟨0, .fn1_ (some 5), .fn1_ (some 7)⟩, ⟨1, .fn_ (some 6), .fn_⟩] :=
    Machine.exists_of_run (by decide +kernel)
  obtain ⟨m, hm, hend⟩ := hrun
  exact ⟨m, hend, answers_of_reach (Machine.reach_of_run _ hm)⟩

/-- A `TaskF1` with a null pointer is called as a `TaskF`. -/
theorem not_answers : ¬∀ m : TaskBodies Nat Nat Nat, Machine.Reach step Machine.Free make m →
    ∀ i ∈ m.runs, ∃ r, m.requests[i.request]? = some r ∧ i.Active ∧ i.Exact r := by
  intro h
  have hrun : ∃ m,
      Machine.run step Machine.Free make (runTask (.taskF1 (some 5) none)) = some m ∧
      m.runs = [⟨0, .fn1_ (some 5), .fn_⟩] :=
    Machine.exists_of_run (by decide +kernel)
  obtain ⟨m, hm, hruns⟩ := hrun
  obtain ⟨r, -, hactive, -⟩ := h m (Machine.reach_of_run _ hm) ⟨0, .fn1_ (some 5), .fn_⟩
    (by rw [hruns]; exact List.mem_singleton_self _)
  exact hactive

end TaskBodies

end CppGo.Scheduling
