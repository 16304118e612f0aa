import CppGo.Scheduler.LinkedDispatcher

/-!
# The linked scheduler and the scheduler have the same runs

With fewer than `2^31` tasks the scheduler on linked queues can do what the one on lists can do
and nothing else.  In every state that is reached the queues and the local lists are linked as
the lists say, so that no assertion of `TSQueue` or `SList` fails, in the destructors neither.
-/

namespace CppGo.Scheduling

open CppGo.Lib CppGo.Lib.Procedure CppGo.Common

/-- The counts of tasks fit into their types. -/
def Scheduler.Small (s : Scheduler) (_ : SchedulerStep) : Prop := s.allocated < 2 ^ 31

instance (s : Scheduler) (e : SchedulerStep) : Decidable (s.Small e) :=
  inferInstanceAs (Decidable (s.allocated < 2 ^ 31))

namespace LinkedScheduler

def Small (L : LinkedScheduler) (e : SchedulerStep) : Prop := L.control.Small e

instance (L : LinkedScheduler) (e : SchedulerStep) : Decidable (L.Small e) :=
  inferInstanceAs (Decidable (L.control.Small e))

/-- The linked scheduler is `s`, and the lists of `s` are the ones in its heap. -/
structure Renders (L : LinkedScheduler) (s : Scheduler) : Prop where
  control : L.control = s.hollow
  scope : ∀ k, (L.lists k).isSome = s.inScope k
  heap : ∃ A : Lists, HoldsLists L.heap A ∧ A.deleted = [] ∧ A.queues.length = 2 * s.size ∧
    (∀ p < s.size, A.queues[runnableQueue_ p]? = some (s.processers_ p).runnableQueue_ ∧
      A.queues[newQueue_ p]? = some (s.processers_ p).newQueue_) ∧
    (∀ k j, L.lists k = some j → A.lists[j]? = some (s.localList k)) ∧
    ∀ tk ∈ A.members, ∃ i : Place, i.IsList ∧ tk ∈ s.contents i

variable {L : LinkedScheduler} {s : Scheduler} {e : SchedulerStep}

theorem Holds.renders (h : L.Holds s) : L.Renders s where
  control := h.1
  scope k := by
    obtain ⟨-, Q, O, -, hl⟩ := h
    exact hl.scope k
  heap := by
    obtain ⟨-, Q, O, ⟨A, hr, rfl, rfl, hdeleted⟩, hl⟩ := h
    refine ⟨A, hr.holdsLists, hdeleted, hl.length, ?_, fun _ _ => hl.slots.object, ?_⟩
    · intro p hp
      have hrunnable := hl.queue (runnableQueue_ p) (by unfold runnableQueue_; omega)
      have hnew := hl.queue (newQueue_ p) (by unfold newQueue_; omega)
      rw [queue_runnable] at hrunnable
      rw [queue_new] at hnew
      exact ⟨hrunnable, hnew⟩
    · intro tk htk
      exact place_of_lays hl htk

structure Follows (L : LinkedScheduler) (s : Scheduler) : Prop where
  holds : L.Holds s
  coherent : s.Coherent
  bounded : s.Bounded
  counted : s.dispatcher.Counted s.allocated s.size

theorem rel_aside (h : L.Holds s) (he : Aside e) :
    Option.Rel Holds ((code L.control e L).map Prod.snd) (s.step e) := by
  have hcode : code L.control e = plain (L.control.step e) := by
    cases e <;> first | rfl | exact he.elim
  rw [hcode]
  apply rel_plain h
  · rw [h.1]
    exact hollow_aside he
  · exact fun t => keeps_aside he

theorem rel_none {α : Type} {g : LinkedScheduler → Option α}
    {f : α → Procedure LinkedScheduler Unit} (hg : g L = none) :
    Option.Rel Holds (((read g >>= f) L).map Prod.snd) none := by
  rw [bind_none (read_none hg)]
  exact .none

theorem rel_step (h : L.Follows s) (hsmall : s.Small e) :
    Option.Rel Holds (L.step e) (s.step e) := by
  obtain ⟨hholds, hcoh, hb, hcounted⟩ := h
  have hcontrol := hholds.1
  cases e with
  | newProcessThread => exact rel_newProcessThread hholds hb
  | createTask n | yield p | suspendBySelfIo p | runOn p | finish p | wakeupBySelfIo tk =>
      exact rel_aside hholds trivial
  | addTask k =>
      have hcreating : L.control.creating = s.creating := by rw [hcontrol]; rfl
      cases hk : s.creating[k]? with
      | none =>
          simp only [Scheduler.step, hk]
          exact rel_none (g := fun _ => L.control.creating[k]?) (by rw [hcreating, hk])
      | some call =>
          simp only [Scheduler.step, hk]
          exact rel_of_ensures (holds_addTask hholds hcoh hb hk)
  | process p =>
      have hsize : L.control.size = s.size := by rw [hcontrol]; rfl
      show Option.Rel Holds (((if p < L.control.size then process L.control p else stuck) L).map
        Prod.snd) (if p < s.size then s.process p else none)
      rw [hsize]
      by_cases hp : p < s.size
      · rw [if_pos hp, if_pos hp]
        exact rel_process hholds hcoh hp
      · rw [if_neg hp, if_neg hp]
        exact .none
  | wakeupPush k =>
      have hwaking : L.control.waking = s.waking := by rw [hcontrol]; rfl
      cases hk : s.waking[k]? with
      | none =>
          simp only [Scheduler.step, hk]
          exact rel_none (g := fun _ => L.control.waking[k]?) (by rw [hwaking, hk])
      | some call =>
          simp only [Scheduler.step, hk]
          exact rel_of_ensures (holds_wakeupPush hholds hcoh hb hk)
  | avgTotalTasks =>
      exact rel_of_ensures (holds_avgTotalTasks hholds hcoh hb hcounted hsmall)

theorem rel_imp {R S : LinkedScheduler → Scheduler → Prop} {o : Option LinkedScheduler}
    {o' : Option Scheduler} (h : Option.Rel R o o')
    (hRS : ∀ L s, o' = some s → R L s → S L s) : Option.Rel S o o' := by
  cases h with
  | some hR => exact .some (hRS _ _ rfl hR)
  | none => exact .none

theorem follows_step (h : L.Follows s) (hsmall : s.Small e) :
    Option.Rel Follows (L.step e) (s.step e) := by
  apply rel_imp (rel_step h hsmall)
  intro L' t hs hholds
  exact ⟨hholds, h.coherent.step hs, h.bounded.step hs, counted_step h.coherent.tidy h.counted hs⟩

theorem stores_make : Stores make.heap [[], []] [] := by
  have hst : Stores Heap.make [] [] := ⟨.make, represents_make, rfl, rfl, rfl⟩
  obtain ⟨_, _, hrun, hst'⟩ := hst.newQueue
  cases hrun
  obtain ⟨_, _, hrun', hst''⟩ := hst'.newQueue
  cases hrun'
  exact hst''

theorem holds_make : make.Holds .make := by
  refine ⟨rfl, [[], []], [], stores_make, ?_⟩
  have hlist : Scheduler.make.localList = fun _ => [] := by
    ext1 k
    cases k <;> rfl
  constructor
  case length => rfl
  case queue =>
    intro q hq
    have hempty : Scheduler.make.queue q = [] := by
      unfold Scheduler.queue
      split <;> rfl
    change q < 2 at hq
    have hcase : q = 0 ∨ q = 1 := by omega
    rcases hcase with rfl | rfl <;> rw [hempty] <;> rfl
  case slots =>
    rw [hlist]
    exact .empty
  case scope =>
    intro k
    cases k <;> rfl

theorem follows_make : make.Follows .make where
  holds := holds_make
  coherent := Scheduler.coherent_make
  bounded := Scheduler.bounded_make
  counted := trivial

/-- The two have the same runs, whatever the order of the critical sections. -/
theorem rel_run (as : List SchedulerStep) :
    Option.Rel Renders (Machine.run step Small make as)
      (Machine.run Scheduler.step Scheduler.Small .make as) := by
  have hcond : ∀ (L : LinkedScheduler) s e, L.Follows s → (L.Small e ↔ s.Small e) := by
    intro L s e h
    unfold Small
    rw [h.holds.1]
    rfl
  have hrel := Machine.run_rel hcond (fun L s e h => follows_step h) as follows_make
  exact rel_imp hrel fun L s _ h => h.holds.renders

/-- The dispatcher works around the running task. -/
example : ((Machine.run step Small make Scheduler.stealAroundRunning).map fun L =>
    (L.heap.failed, L.lists .tasks, L.heap.queues.map TSQueue.count_)) =
      some (false, some 1, [2, 0, 0, 2]) := by
  decide +kernel

end LinkedScheduler

end CppGo.Scheduling
