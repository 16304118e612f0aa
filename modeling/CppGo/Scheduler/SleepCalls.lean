import CppGo.Scheduler.Conservation
import CppGo.Scheduler.Sleep

/-!
# The calls of `sleep`

The elements of sleepers that no pass has come to, and the calls of `sleep` that have an
element and have not been ended, are the same.  Every step outside the passes keeps this, and
a pass that takes the first of the elements ends its call.
-/

namespace CppGo.Scheduling

open CppGo.Lib CppGo.Timers

namespace Scheduler

variable {s t : Scheduler} {p : Nat} {tk : TaskPtr} {e : SchedulerStep}

section Frames

variable {q : Nat} {x : Processer}

theorem pc_update (hx : p = q → x.pc = (s.processers_ p).pc) :
    (Function.update s.processers_ q x p).pc = (s.processers_ p).pc := by
  by_cases hp : p = q
  · rw [hp, Function.update_self, ← hp, hx hp]
  · rw [Function.update_of_ne hp]

theorem pc_pushNew {l : TaskList} :
    ((s.pushNew q l).processers_ p).pc = (s.processers_ p).pc :=
  pc_update fun hp => by rw [hp]

theorem avgTotalTasks_frame :
    (s.avgTotalTasks.processers_ p).pc = (s.processers_ p).pc ∧
      s.avgTotalTasks.suspended = s.suspended := by
  unfold Scheduler.avgTotalTasks
  split
  case h_1 => split <;> exact ⟨rfl, rfl⟩
  case h_2 =>
    simp only
    split <;> exact ⟨rfl, rfl⟩
  case h_3 => exact ⟨rfl, rfl⟩
  case h_4 a _ =>
    unfold Scheduler.steal
    split
    · simp only
      split
      · exact ⟨pc_update fun hp => by rw [hp]; rfl, rfl⟩
      · exact ⟨rfl, rfl⟩
    · exact ⟨rfl, rfl⟩
  case h_5 => exact ⟨pc_update fun hp => by rw [hp]; rfl, rfl⟩
  case h_6 a _ =>
    unfold Scheduler.deal
    split
    · simp only
      split <;> exact ⟨rfl, rfl⟩
    · exact ⟨rfl, rfl⟩
  case h_7 => exact ⟨pc_pushNew, rfl⟩
  case h_8 =>
    split
    · exact ⟨rfl, rfl⟩
    · exact ⟨pc_pushNew, rfl⟩

theorem processers_wakeupBySelfIo : (s.wakeupBySelfIo tk).processers_ = s.processers_ := by
  unfold Scheduler.wakeupBySelfIo
  split <;> rfl

theorem createTask_frame (n : Int) :
    (s.createTask n).processers_ = s.processers_ ∧ (s.createTask n).suspended = s.suspended := by
  have hcreated := s.created n
  generalize s.createTask n = t at *
  cases hcreated <;> exact ⟨rfl, rfl⟩

theorem pc_step (hs : s.step e = some t) (he : e ≠ .process p)
    (hpc : ∀ tk, (s.processers_ p).pc ≠ .exec tk)
    (hrunOn : e = .runOn p → ∀ tk, (s.processers_ p).pc ≠ .suspended tk) :
    (t.processers_ p).pc = (s.processers_ p).pc := by
  cases stepped hs with
  | newProcessThread => rfl
  | createTask n => rw [(createTask_frame n).1]
  | addTask => exact pc_pushNew (s := s.assert _)
  | process _ hs => rw [(local_process hs).processers p fun hp => he (hp ▸ rfl)]
  | yield hexec | suspendBySelfIo hexec | finish hexec =>
      exact pc_update fun hp => absurd (hp ▸ hexec) (hpc _)
  | runOn hsuspended =>
      exact pc_update fun hp => absurd (hp ▸ hsuspended) (hrunOn (hp ▸ rfl) _)
  | wakeupBySelfIo => rw [processers_wakeupBySelfIo]
  | wakeupPush => exact pc_update fun hp => by rw [hp]; rfl
  | avgTotalTasks => exact avgTotalTasks_frame.1

theorem suspended_process (hs : s.process p = some t) (hmem : tk ∈ s.suspended) :
    tk ∈ t.suspended := by
  cases processed hs with
  | suspendErase => exact List.mem_append_left _ hmem
  | branch =>
      unfold branch
      simp only
      split <;> exact hmem
  | front | addEmpty | addPop | addPush | frontAgain | waitLoop | swapIn | loopEnd | suspended
  | unpicked => exact hmem

theorem suspended_step (hs : s.step e = some t) (he : e ≠ .wakeupBySelfIo tk)
    (hmem : tk ∈ s.suspended) : tk ∈ t.suspended := by
  cases stepped hs with
  | createTask n =>
      rw [(createTask_frame n).2]
      exact hmem
  | process _ hs => exact suspended_process hs hmem
  | @wakeupBySelfIo tk' =>
      have hne : tk ≠ tk' := fun heq => he (heq ▸ rfl)
      unfold Scheduler.wakeupBySelfIo
      split
      · exact (List.mem_erase_of_ne hne).mpr hmem
      · exact hmem
  | avgTotalTasks =>
      rw [(avgTotalTasks_frame (p := 0)).2]
      exact hmem
  | newProcessThread | addTask | yield | suspendBySelfIo | runOn | finish | wakeupPush => exact hmem

theorem process_suspending (hs : s.process p = some t)
    (hpc : (s.processers_ p).pc = .suspending tk) :
    (t.processers_ p).pc = .suspended tk ∧ tk ∈ t.suspended := by
  unfold Scheduler.process at hs
  simp only [hpc] at hs
  cases hs
  refine ⟨?_, List.mem_append_right _ (List.mem_singleton_self tk)⟩
  show (Function.update s.processers_ p _ p).pc = _
  rw [Function.update_self]

end Frames

end Scheduler

/-- The call has been ended by one wake-up, not early and of a task in no queue. -/
def SleepCall.Ended (c : SleepCall) : Prop :=
  ∃ w x, c.wakes = [w] ∧ c.sleeper = some x ∧ w.queued = false ∧ x.deadline ≤ w.now

namespace SleepSystem

abbrev Elements := List (Node Int TimerElement)

variable {s u : SleepSystem} {ahead : Nat → Elements} {p : Nat} {t : TaskPtr}

structure Starting (s : SleepSystem) (p : Nat) (t : TaskPtr) : Prop where
  milliseconds : (s.milliseconds p).isSome
  pc : (s.scheduler.processers_ p).pc = .suspending t ∨
    (s.scheduler.processers_ p).pc = .suspended t ∧ t ∈ s.scheduler.suspended

theorem Starting.unique {t' : TaskPtr} (h : s.Starting p t) (h' : s.Starting p t') : t = t' := by
  have hpc' := h'.pc
  rcases h.pc with hpc | ⟨hpc, -⟩
  all_goals
    rw [hpc] at hpc'
    rcases hpc' with hpc' | ⟨hpc', -⟩ <;> cases hpc'
    rfl

/-- The calls of a task.  `ahead` are the elements of each Processer that no pass has come
to. -/
inductive Calls (s : SleepSystem) (ahead : Nat → Elements) (t : TaskPtr) : List SleepCall → Prop
  | awake {l : List SleepCall} (hl : ∀ c ∈ l, c.Ended) : Calls s ahead t l
  | starting {l : List SleepCall} {p : Nat} (hl : ∀ c ∈ l, c.Ended) (hp : s.Starting p t) :
      Calls s ahead t (.make :: l)
  | asleep {l : List SleepCall} {x : Sleeper} (hl : ∀ c ∈ l, c.Ended)
      (hmem : t ∈ s.scheduler.suspended)
      (hnode : ⟨x.id, x.deadline, .taskTimeout t⟩ ∈ ahead x.processer) :
      Calls s ahead t ({ sleeper := some x, wakes := [] } :: l)

structure Consistent (s : SleepSystem) (ahead : Nat → Elements) : Prop where
  coherent : s.scheduler.Coherent
  bounded : s.scheduler.Bounded
  calls : ∀ t, s.Calls ahead t (s.calls t)
  sleepers : ∀ p, ∀ n ∈ ahead p, ∀ t, n.value = .taskTimeout t →
    ∃ l, s.calls t = { sleeper := some ⟨p, n.id, n.key⟩, wakes := [] } :: l
  milliseconds : ∀ p, (s.milliseconds p).isSome → ∃ t l, s.calls t = .make :: l ∧ s.Starting p t
  nodup : ∀ p, ((ahead p).map Node.id).Nodup

section Calls

theorem Calls.transfer {l : List SleepCall} {ahead' : Nat → Elements} (h : s.Calls ahead t l)
    (hstarting : ∀ p, s.Starting p t → u.Starting p t)
    (hsuspended : t ∈ s.scheduler.suspended → t ∈ u.scheduler.suspended)
    (hahead : ∀ p, ∀ n ∈ ahead p, n.value = .taskTimeout t → n ∈ ahead' p) :
    u.Calls ahead' t l := by
  cases h with
  | awake hl => exact .awake hl
  | starting hl hp => exact .starting hl (hstarting _ hp)
  | asleep hl hmem hnode => exact .asleep hl (hsuspended hmem) (hahead _ _ hnode rfl)

theorem not_ended {c : SleepCall} (h : c.wakes = []) : ¬ c.Ended := by
  rintro ⟨w, x, hw, -⟩
  cases h.symm.trans hw

theorem Consistent.ended_of_not_asleep (h : s.Consistent ahead) (ht : s.asleep t = false) :
    ∀ c ∈ s.calls t, c.Ended := by
  have hcalls := h.calls t
  unfold SleepSystem.asleep at ht
  generalize s.calls t = l at hcalls ht
  cases hcalls with
  | awake hl => exact hl
  | starting _ _ | asleep _ _ _ => cases ht

theorem queued_of_shared {s : Scheduler} {g : Shared} (h : s.Coherent) (ht : t ∈ s.shared g)
    (hg : ¬ (Place.shared g).IsList) : s.queued t = false := by
  have hplace : ∀ i : Place, i.IsList → t ∉ s.contents i := by
    intro i hi hmem
    have hthere : t ∈ s.contents (.shared g) := ht
    exact hg (h.tidy.place_unique hthere hmem ▸ hi)
  unfold Scheduler.queued
  simp only [Bool.or_eq_false_iff, List.any_eq_false, Bool.not_eq_true, decide_eq_false_iff_not]
  refine ⟨⟨?_, hplace (.shared .tasks) (.inl rfl)⟩, hplace (.shared .slist) (.inr rfl)⟩
  intro p _
  exact ⟨⟨hplace (.processer p .runnable) nofun, hplace (.processer p .new) nofun⟩,
    hplace (.processer p .adding) nofun⟩

theorem Consistent.ended_of_exec (h : s.Consistent ahead)
    (hpc : (s.scheduler.processers_ p).pc = .exec t) : ∀ c ∈ s.calls t, c.Ended := by
  obtain ⟨-, hmem, -⟩ := h.coherent.exec hpc
  have hawake : t ∉ s.scheduler.suspended := 
    h.coherent.tidy.not_shared (q := .runnable) (g := .suspended) hmem
  have hcalls := h.calls t
  generalize s.calls t = l at hcalls
  cases hcalls with
  | awake hl => exact hl
  | @starting l p' hl hp =>
      rcases hp.pc with hpc' | ⟨-, hsuspended⟩
      · obtain ⟨-, hmem', -⟩ := h.coherent.suspending hpc'
        have hhere : t ∈ s.scheduler.contents (.processer p .runnable) := hmem
        have heq := h.coherent.tidy.place_unique (j := .processer p' .runnable) hhere hmem'
        injection heq with heq
        rw [heq, hpc'] at hpc
        cases hpc
      · exact absurd hsuspended hawake
  | asleep _ hsuspended _ => exact absurd hsuspended hawake

end Calls

section Steps

variable {v : Scheduler}

theorem Consistent.of_scheduler (h : s.Consistent ahead) (hcoherent : v.Coherent)
    (hbounded : v.Bounded)
    (hstarting : ∀ p t, s.Starting p t →
      ({ s with scheduler := v } : SleepSystem).Starting p t)
    (hsuspended : ∀ t, s.asleep t = true → t ∈ s.scheduler.suspended → t ∈ v.suspended) :
    ({ s with scheduler := v } : SleepSystem).Consistent ahead := by
  constructor
  case coherent => exact hcoherent
  case bounded => exact hbounded
  case calls =>
    intro t
    cases ht : s.asleep t with
    | false => exact .awake (h.ended_of_not_asleep ht)
    | true =>
        exact (h.calls t).transfer (fun p => hstarting p t) (hsuspended t ht) fun _ _ hn _ => hn
  case sleepers => exact h.sleepers
  case milliseconds =>
    intro p hp
    obtain ⟨t, l, hl, hstart⟩ := h.milliseconds p hp
    exact ⟨t, l, hl, hstarting p t hstart⟩
  case nodup => exact h.nodup

theorem Consistent.asleep_of_starting (h : s.Consistent ahead) (hp : s.Starting p t) :
    s.asleep t = true := by
  obtain ⟨t', l, hl, hp'⟩ := h.milliseconds p hp.milliseconds
  obtain rfl := hp.unique hp'
  unfold SleepSystem.asleep
  rw [hl]
  rfl

theorem Consistent.scheduler {e : SchedulerStep} (h : s.Consistent ahead)
    (hapart : s.apart e = true) (hs : s.scheduler.step e = some v) :
    ({ s with scheduler := v } : SleepSystem).Consistent ahead := by
  have hwake : ∀ t, s.asleep t = true → e ≠ .wakeupBySelfIo t := by
    rintro t ht rfl
    simp [apart, ht] at hapart
  have hsuspended : ∀ t, s.asleep t = true → t ∈ s.scheduler.suspended → t ∈ v.suspended :=
    fun t ht => Scheduler.suspended_step hs (hwake t ht)
  have hafter : ∀ p t, (s.milliseconds p).isSome → (s.scheduler.processers_ p).pc = .suspended t →
      (v.processers_ p).pc = .suspended t := by
    intro p t hp hpc
    rw [← hpc]
    obtain ⟨ms, hms⟩ := Option.isSome_iff_exists.mp hp
    apply Scheduler.pc_step hs
    · rintro rfl
      simp [apart, hpc, hms] at hapart
    · simp [hpc]
    · rintro rfl
      simp [apart, hms] at hapart
  have hbefore : ∀ p t, (s.scheduler.processers_ p).pc = .suspending t →
      (v.processers_ p).pc = .suspending t ∨
        (v.processers_ p).pc = .suspended t ∧ t ∈ v.suspended := by
    intro p t hpc
    by_cases he : e = .process p
    · subst he
      right
      unfold Scheduler.step at hs
      simp only at hs
      split at hs
      · exact Scheduler.process_suspending hs hpc
      · cases hs
    · left
      rw [← hpc]
      exact Scheduler.pc_step hs he (by simp [hpc]) (by simp [hpc])
  apply h.of_scheduler (h.coherent.step hs) (h.bounded.step hs) ?_ hsuspended
  intro p t hp
  refine ⟨hp.milliseconds, ?_⟩
  rcases hp.pc with hpc | ⟨hpc, hmem⟩
  · exact hbefore p t hpc
  · exact .inr ⟨hafter p t hp.milliseconds hpc, hsuspended t (h.asleep_of_starting hp) hmem⟩

theorem Consistent.toFront (h : s.Consistent ahead) (hp : p < s.scheduler.size)
    (hpc : (s.scheduler.processers_ p).pc = .waitLoop) : (s.toFront p).Consistent ahead := by
  have hs : s.scheduler.step (.process p) = some (s.toFront p).scheduler := by
    unfold Scheduler.step Scheduler.process
    simp only [if_pos hp, hpc]
    rfl
  have hsame : ∀ p' t, (s.scheduler.processers_ p').pc = .suspending t ∨
      (s.scheduler.processers_ p').pc = .suspended t →
      ((s.toFront p).scheduler.processers_ p').pc = (s.scheduler.processers_ p').pc := by
    intro p' t hpc'
    refine Scheduler.pc_update fun heq => ?_
    rw [heq, hpc] at hpc'
    rcases hpc' with hpc' | hpc' <;> cases hpc'
  apply h.of_scheduler (h.coherent.step hs) (h.bounded.step hs) ?_ fun _ _ => id
  intro p' t hstart
  refine ⟨hstart.milliseconds, ?_⟩
  rw [hsame p' t (hstart.pc.imp_right And.left)]
  exact hstart.pc

theorem Consistent.of_ahead {ahead' : Nat → Elements} (h : s.Consistent ahead)
    (hahead : ∀ p n t, n.value = .taskTimeout t → (n ∈ ahead' p ↔ n ∈ ahead p))
    (hnodup : ∀ p, ((ahead' p).map Node.id).Nodup) : s.Consistent ahead' where
  coherent := h.coherent
  bounded := h.bounded
  calls t := (h.calls t).transfer (fun _ => id) id fun p n hn hvalue => (hahead p n t hvalue).mpr hn
  sleepers p n hn t hvalue := h.sleepers p n ((hahead p n t hvalue).mp hn) t hvalue
  milliseconds := h.milliseconds
  nodup := hnodup

theorem Consistent.sleep (h : s.Consistent ahead) (hpc : (s.scheduler.processers_ p).pc = .exec t)
    (ms : Int) : (s.sleep p t ms).Consistent ahead := by
  have hended := h.ended_of_exec hpc
  have hself : ((s.sleep p t ms).scheduler.processers_ p).pc = .suspending t := by
    show (Function.update s.scheduler.processers_ p _ p).pc = _
    rw [Function.update_self]
  have hstart : (s.sleep p t ms).Starting p t := by
    refine ⟨?_, .inl hself⟩
    show (Function.update s.milliseconds p _ p).isSome
    rw [Function.update_self]
    rfl
  have hother : ∀ p' t', s.Starting p' t' → (s.sleep p t ms).Starting p' t' := by
    intro p' t' hp'
    have hne : p' ≠ p := by
      rintro rfl
      have hpc' := hp'.pc
      rw [hpc] at hpc'
      rcases hpc' with hpc' | ⟨hpc', -⟩ <;> cases hpc'
    constructor
    · show (Function.update s.milliseconds p _ p').isSome
      rw [Function.update_of_ne hne]
      exact hp'.milliseconds
    · show (Function.update s.scheduler.processers_ p _ p').pc = _ ∨
        (Function.update s.scheduler.processers_ p _ p').pc = _ ∧ _
      rw [Function.update_of_ne hne]
      exact hp'.pc
  -- the calls of the other tasks are those of before
  have hcalls : ∀ {c l t'}, c.wakes = [] → s.calls t' = c :: l →
      (s.sleep p t ms).calls t' = c :: l := by
    intro c l t' hwakes hl
    have hne : t' ≠ t := by
      rintro rfl
      exact not_ended hwakes (hended c (hl ▸ List.mem_cons_self))
    exact (Function.update_of_ne hne _ _).trans hl
  constructor
  case coherent => exact h.coherent.suspendBySelfIo hpc
  case bounded =>
    exact h.bounded.of_local Scheduler.local_suspendBySelfIo (h.bounded.lt_of_exec hpc)
  case calls =>
    intro t'
    show Calls _ ahead t' (Function.update s.calls t _ t')
    by_cases ht : t' = t
    · subst ht
      rw [Function.update_self]
      exact .starting hended hstart
    · rw [Function.update_of_ne ht]
      exact (h.calls t').transfer (fun p' => hother p' t') id fun _ _ hn _ => hn
  case sleepers =>
    intro p' n hn t' hvalue
    obtain ⟨l, hl⟩ := h.sleepers p' n hn t' hvalue
    exact ⟨l, hcalls rfl hl⟩
  case milliseconds =>
    intro p' hp'
    by_cases hpp : p' = p
    · subst hpp
      exact ⟨t, s.calls t, Function.update_self .., hstart⟩
    · have hp' : (Function.update s.milliseconds p (some ms) p').isSome := hp'
      rw [Function.update_of_ne hpp] at hp'
      obtain ⟨t', l, hl, hstart'⟩ := h.milliseconds p' hp'
      exact ⟨t', l, hcalls rfl hl, hother p' t' hstart'⟩
  case nodup => exact h.nodup

theorem Consistent.home_of_starting (h : s.Consistent ahead) (hp : s.Starting p t) :
    (s.scheduler.task t).proc_ = some p := by
  have hexec : s.scheduler.Executes p t := .inr (hp.pc.imp_right And.left)
  exact (h.coherent.executing hexec).2.1

theorem Consistent.starting_of_pc (h : s.Consistent ahead)
    (hpc : (s.scheduler.processers_ p).pc = .suspended t) (hms : (s.milliseconds p).isSome) :
    s.Starting p t := by
  obtain ⟨t', -, -, hp⟩ := h.milliseconds p hms
  have hpc' := hp.pc
  rw [hpc] at hpc'
  rcases hpc' with hpc' | ⟨hpc', -⟩ <;> cases hpc'
  exact hp

theorem Consistent.addSleeper {ahead' : Nat → Elements} {now ms : Int} (h : s.Consistent ahead)
    (hp : s.Starting p t) (hpc : (s.scheduler.processers_ p).pc = .suspended t)
    (hahead : ∀ p' n, n ∈ ahead' p' ↔ n ∈ ahead p' ∨ p' = p ∧
      n = ⟨(s.timer_manager_ p).timer_map_.nextId, now + ms * millisecond, .taskTimeout t⟩)
    (hnodup : ∀ p', ((ahead' p').map Node.id).Nodup) :
    (s.addSleeper p p t now ms).Consistent ahead' := by
  have hsuspended : t ∈ s.scheduler.suspended := by
    rcases hp.pc with hpc' | ⟨-, hmem⟩
    · cases hpc.symm.trans hpc'
    · exact hmem
  obtain ⟨t', l, hl, hp'⟩ := h.milliseconds p hp.milliseconds
  obtain rfl := hp.unique hp'
  have hended : ∀ c ∈ l, c.Ended := by
    have hcalls := h.calls t
    rw [hl] at hcalls
    cases hcalls with
    | awake hl' => exact absurd (hl' _ List.mem_cons_self) (not_ended rfl)
    | starting hl' _ => exact hl'
  generalize hx : (⟨p, (s.timer_manager_ p).timer_map_.nextId, now + ms * millisecond⟩ : Sleeper) = x
  have hself : (s.addSleeper p p t now ms).calls t = { sleeper := some x, wakes := [] } :: l := by
    show Function.update s.calls t ((s.calls t).modifyHead _) t = _
    rw [Function.update_self, hl, ← hx]
    rfl
  have hcalls : ∀ t' ≠ t, (s.addSleeper p p t now ms).calls t' = s.calls t' := fun t' ht =>
    Function.update_of_ne ht _ _
  have hother : ∀ p' t', t' ≠ t → s.Starting p' t' →
      (s.addSleeper p p t now ms).Starting p' t' := by
    intro p' t' ht hstart
    have hne : p' ≠ p := by
      rintro rfl
      exact ht (hstart.unique hp)
    refine ⟨?_, hstart.pc⟩
    show (Function.update s.milliseconds p _ p').isSome
    rw [Function.update_of_ne hne]
    exact hstart.milliseconds
  constructor
  case coherent => exact h.coherent
  case bounded => exact h.bounded
  case calls =>
    intro t'
    by_cases ht : t' = t
    · subst ht
      rw [hself]
      refine .asleep hended ?_ ?_
      · exact hsuspended
      · rw [hahead, ← hx]
        exact .inr ⟨rfl, rfl⟩
    · rw [hcalls t' ht]
      exact (h.calls t').transfer (fun p' => hother p' t' ht) id
        fun p' n hn _ => (hahead p' n).mpr (.inl hn)
  case sleepers =>
    intro p' n hn t' hvalue
    rcases (hahead p' n).mp hn with hn | ⟨rfl, rfl⟩
    · obtain ⟨l', hl'⟩ := h.sleepers p' n hn t' hvalue
      have hne : t' ≠ t := by
        rintro rfl
        cases hl.symm.trans hl'
      exact ⟨l', (hcalls t' hne).trans hl'⟩
    · cases hvalue
      exact ⟨l, by rw [hself, ← hx]⟩
  case milliseconds =>
    intro p' hp''
    have hms : (Function.update s.milliseconds p none p').isSome := hp''
    have hne : p' ≠ p := by
      rintro rfl
      rw [Function.update_self] at hms
      cases hms
    rw [Function.update_of_ne hne] at hms
    obtain ⟨t', l', hl', hstart⟩ := h.milliseconds p' hms
    have ht : t' ≠ t := by
      rintro rfl
      exact hne (Option.some.inj ((h.home_of_starting hstart).symm.trans (h.home_of_starting hp)))
    exact ⟨t', l', (hcalls t' ht).trans hl', hother p' t' ht hstart⟩
  case nodup => exact hnodup

theorem Consistent.wakeup {n : Node Int TimerElement} {rest : Elements} {now : Int}
    (h : s.Consistent ahead) (hahead : ahead p = n :: rest) (hvalue : n.value = .taskTimeout t)
    (hdue : n.key ≤ now) : (s.wakeup now t).Consistent (Function.update ahead p rest) := by
  obtain ⟨l, hl⟩ := h.sleepers p n (hahead ▸ List.mem_cons_self) t hvalue
  have hopen := h.calls t
  rw [hl] at hopen
  obtain ⟨hended, hmem⟩ : (∀ c ∈ l, c.Ended) ∧ t ∈ s.scheduler.suspended := by
    cases hopen with
    | awake hl' => exact absurd (hl' _ List.mem_cons_self) (not_ended rfl)
    | asleep hl' hmem _ => exact ⟨hl', hmem⟩
  obtain ⟨-, q, hhome⟩ := h.coherent.suspended t hmem
  have hqueued : s.scheduler.queued t = false :=
    queued_of_shared (g := .suspended) h.coherent hmem (by simp [Place.IsList])
  have hself : (s.wakeup now t).calls t =
      { sleeper := some ⟨p, n.id, n.key⟩, wakes := [⟨now, false⟩] } :: l := by
    show Function.update s.calls t ((s.calls t).modifyHead _) t = _
    rw [Function.update_self, hl, hqueued]
    rfl
  have hcalls : ∀ t' ≠ t, (s.wakeup now t).calls t' = s.calls t' := fun t' ht =>
    Function.update_of_ne ht _ _
  have hsuspended : ∀ t' ≠ t, t' ∈ s.scheduler.suspended →
      t' ∈ (s.wakeup now t).scheduler.suspended := by
    intro t' ht hmem'
    show t' ∈ (s.scheduler.wakeupBySelfIo t).suspended
    rw [Scheduler.wakeupBySelfIo_eq hhome]
    exact (List.mem_erase_of_ne ht).mpr hmem'
  have hother : ∀ p' t', t' ≠ t → s.Starting p' t' → (s.wakeup now t).Starting p' t' := by
    intro p' t' ht hp'
    refine ⟨hp'.milliseconds, ?_⟩
    show ((s.scheduler.wakeupBySelfIo t).processers_ p').pc = _ ∨
      ((s.scheduler.wakeupBySelfIo t).processers_ p').pc = _ ∧ _
    rw [Scheduler.processers_wakeupBySelfIo]
    exact hp'.pc.imp_right fun hpc => ⟨hpc.1, hsuspended t' ht hpc.2⟩
  have hrest : ∀ p' n', n' ∈ Function.update ahead p rest p' → n' ∈ ahead p' ∧
      (p' = p → n'.id ≠ n.id) := by
    intro p' n' hn'
    by_cases hp : p' = p
    · subst hp
      rw [Function.update_self] at hn'
      have hnodup := h.nodup p'
      rw [hahead, List.map_cons, List.nodup_cons] at hnodup
      rw [hahead]
      refine ⟨List.mem_cons_of_mem n hn', fun _ hid => hnodup.1 ?_⟩
      exact hid ▸ List.mem_map_of_mem hn'
    · rw [Function.update_of_ne hp] at hn'
      exact ⟨hn', fun heq => absurd heq hp⟩
  constructor
  case coherent => exact h.coherent.wakeupBySelfIo hmem
  case bounded => exact h.bounded.wakeupBySelfIo t
  case calls =>
    intro t'
    by_cases ht : t' = t
    · subst ht
      rw [hself]
      apply Calls.awake
      intro c hc
      rcases List.mem_cons.mp hc with rfl | hc
      · exact ⟨_, _, rfl, rfl, rfl, hdue⟩
      · exact hended c hc
    · rw [hcalls t' ht]
      refine (h.calls t').transfer (fun p' => hother p' t' ht) (hsuspended t' ht) ?_
      intro p' n' hn' hvalue'
      by_cases hp : p' = p
      · subst hp
        rw [Function.update_self]
        rw [hahead] at hn'
        refine (List.mem_cons.mp hn').resolve_left ?_
        rintro rfl
        cases hvalue.symm.trans hvalue'
        exact ht rfl
      · rw [Function.update_of_ne hp]
        exact hn'
  case sleepers =>
    intro p' n' hn' t' hvalue'
    obtain ⟨hmem', hid⟩ := hrest p' n' hn'
    obtain ⟨l', hl'⟩ := h.sleepers p' n' hmem' t' hvalue'
    have hne : t' ≠ t := by
      rintro rfl
      have heq := hl.symm.trans hl'
      simp only [List.cons.injEq, SleepCall.mk.injEq, Option.some.injEq, Sleeper.mk.injEq] at heq
      exact hid heq.1.1.1.symm heq.1.1.2.1.symm
    exact ⟨l', (hcalls t' hne).trans hl'⟩
  case milliseconds =>
    intro p' hp'
    obtain ⟨t', l', hl', hstart⟩ := h.milliseconds p' hp'
    have hne : t' ≠ t := by
      rintro rfl
      cases hl.symm.trans hl'
    exact ⟨t', l', (hcalls t' hne).trans hl', hother p' t' hne hstart⟩
  case nodup =>
    intro p'
    by_cases hp : p' = p
    · subst hp
      rw [Function.update_self]
      have hnodup := h.nodup p'
      rw [hahead, List.map_cons, List.nodup_cons] at hnodup
      exact hnodup.2
    · rw [Function.update_of_ne hp]
      exact h.nodup p'

end Steps

end SleepSystem

end CppGo.Scheduling
