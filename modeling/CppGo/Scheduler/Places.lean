import CppGo.Lib.Placement
import CppGo.Scheduler.Scheduler

/-!
# Where the tasks are

Every task allocated is in a queue, in a local variable of a thread, suspended, between the
two last critical sections of its end, or in `free_task_map_`.
-/

namespace CppGo.Scheduling

open CppGo.Lib

open scoped List

/-- The places of tasks at a Processer; `adding` is the local list of `AddNewTasks`, and a
task is `finished` when it has left the queue and is not in `free_task_map_` yet. -/
inductive Hold
  | runnable
  | new
  | adding
  | finished
deriving DecidableEq, Repr

/-- The other places; `tasks` and `slist` are the local lists of `AvgTotalTasks` and
`Steal`. -/
inductive Shared
  | creating
  | suspended
  | waking
  | tasks
  | slist
  | free
deriving DecidableEq, Repr

inductive Place
  | processer (p : Nat) (q : Hold)
  | shared (g : Shared)
deriving DecidableEq, Repr

def Processer.held (x : Processer) : Hold → TaskList
  | .runnable => x.runnableQueue_
  | .new => x.newQueue_
  | .adding => x.pc.elements
  | .finished => if x.pc = .doneAdvance then x.runningTask_.toList else []

def Place.IsList : Place → Prop
  | .processer _ q => q ≠ .finished
  | .shared g => g = .tasks ∨ g = .slist

def Place.IsLive : Place → Prop
  | .processer _ q => q ≠ .finished
  | .shared g => g ≠ .free

namespace Scheduler

def shared (s : Scheduler) : Shared → TaskList
  | .creating => s.creating.map Prod.fst
  | .suspended => s.suspended
  | .waking => s.waking.map Prod.fst
  | .tasks => s.dispatcher.tasks
  | .slist => s.dispatcher.slist
  | .free => s.free_task_map_.values

def contents (s : Scheduler) : Place → TaskList
  | .processer p q => (s.processers_ p).held q
  | .shared g => s.shared g

/-- Every task allocated is in one place, once. -/
def Tidy (s : Scheduler) : Prop := Placed s.contents (· < s.allocated)

theorem processer_ne_shared {p : Nat} {q : Hold} {g : Shared} :
    Place.processer p q ≠ .shared g :=
  nofun

variable {s t : Scheduler} {i j : Place} {l : TaskList} {p : Nat} {x : Processer} {tk : TaskPtr}

theorem assert_true : s.assert true = s := by
  simp [assert]

section Links

theorem mem_of_linkedIn (h : linkedIn l tk = true) : tk ∈ l := by
  unfold linkedIn at h
  rw [Bool.and_eq_true] at h
  exact of_decide_eq_true h.1

theorem place_of_linked (h : s.linked tk = true) : ∃ i : Place, i.IsList ∧ tk ∈ s.contents i := by
  unfold linked at h
  simp only [Bool.or_eq_true, List.any_eq_true, decide_eq_true_eq] at h
  rcases h with (⟨p, _, (hmem | hmem) | hmem⟩ | hmem) | hmem
  · exact ⟨.processer p .runnable, nofun, hmem⟩
  · exact ⟨.processer p .new, nofun, hmem⟩
  · exact ⟨.processer p .adding, nofun, mem_of_linkedIn hmem⟩
  · exact ⟨.shared .tasks, .inl rfl, mem_of_linkedIn hmem⟩
  · exact ⟨.shared .slist, .inr rfl, mem_of_linkedIn hmem⟩

theorem Tidy.not_linked (h : s.Tidy) (hmem : tk ∈ s.contents i) (hi : ¬ i.IsList) :
    s.linked tk = false := by
  rw [Bool.eq_false_iff]
  intro hlinked
  obtain ⟨j, hj, hmem'⟩ := place_of_linked hlinked
  exact hi (h.place_unique hmem hmem' ▸ hj)

theorem owns_of_mem (h : tk ∈ (s.processers_ p).runnableQueue_) : s.owns p (some tk) = true := by
  simp [owns, h]

theorem owns_of_not_linked (h : s.linked tk = false) : s.owns p (some tk) = true := by
  simp [owns, h]

end Links

theorem Tidy.not_shared {q : Hold} {g : Shared} (h : s.Tidy)
    (hmem : tk ∈ (s.processers_ p).held q) : tk ∉ s.shared g := by
  intro hshared
  have hhere : tk ∈ s.contents (.processer p q) := hmem
  have hthere : tk ∈ s.contents (.shared g) := hshared
  exact processer_ne_shared (h.place_unique hhere hthere)

section Steps

def Touches (s t : Scheduler) (p : Nat) (x : Processer) : Prop :=
  t.processers_ = Function.update s.processers_ p x ∧ t.allocated = s.allocated

theorem Touches.held (h : Touches s t p x) (q : Hold) :
    t.contents (.processer p q) = x.held q := by
  show (t.processers_ p).held q = _
  rw [h.1, Function.update_self]

theorem Touches.other (h : Touches s t p x) {p' : Nat} (hp : p' ≠ p) (q : Hold) :
    t.contents (.processer p' q) = s.contents (.processer p' q) := by
  show (t.processers_ p').held q = _
  rw [h.1, Function.update_of_ne hp]
  rfl

theorem Touches.perm (h : Touches s t p x) {K : Place → Prop}
    (hheld : ∀ q, K (.processer p q) → x.held q ~ (s.processers_ p).held q)
    (hshared : ∀ g, K (.shared g) → t.shared g ~ s.shared g) (k : Place) (hk : K k) :
    t.contents k ~ s.contents k := by
  cases k with
  | processer p' q =>
      by_cases hp : p' = p
      · subst hp
        rw [h.held]
        exact hheld q hk
      · rw [h.other hp]
  | shared g => exact hshared g hk

theorem Tidy.stay (h : s.Tidy) (ht : Touches s t p x)
    (hheld : ∀ q, x.held q ~ (s.processers_ p).held q)
    (hshared : ∀ g, t.shared g ~ s.shared g) : t.Tidy := by
  have hperm : ∀ k, t.contents k ~ s.contents k := fun k =>
    ht.perm (K := fun _ => True) (fun q _ => hheld q) (fun g _ => hshared g) k trivial
  unfold Tidy
  rw [ht.2]
  exact Placed.perm h hperm

theorem Tidy.move (h : s.Tidy) (ht : Touches s t p x) (hij : i ≠ j)
    (hi : s.contents i ~ l ++ t.contents i) (hj : t.contents j ~ l ++ s.contents j)
    (hheld : ∀ q, .processer p q ≠ i → .processer p q ≠ j → x.held q ~ (s.processers_ p).held q)
    (hshared : ∀ g, .shared g ≠ i → .shared g ≠ j → t.shared g ~ s.shared g) : t.Tidy := by
  have hother : ∀ k, k ≠ i → k ≠ j → t.contents k ~ s.contents k := fun k hki hkj =>
    ht.perm (K := fun k => k ≠ i ∧ k ≠ j) (fun q hq => hheld q hq.1 hq.2)
      (fun g hg => hshared g hg.1 hg.2) k ⟨hki, hkj⟩
  unfold Tidy
  rw [ht.2]
  exact Placed.move h hij hi hj hother

@[simp] theorem processers_setProcesser : (s.setProcesser p x).processers_ p = x :=
  Function.update_self ..

theorem Tidy.shift {a b : Hold} (h : s.Tidy) (hab : a ≠ b)
    (ha : (s.processers_ p).held a ~ l ++ x.held a)
    (hb : x.held b ~ l ++ (s.processers_ p).held b)
    (hheld : ∀ q, q ≠ a → q ≠ b → x.held q ~ (s.processers_ p).held q) :
    (s.setProcesser p x).Tidy := by
  have ht : Touches s (s.setProcesser p x) p x := ⟨rfl, rfl⟩
  refine h.move ht (i := .processer p a) (j := .processer p b) (l := l) ?_ ?_ ?_ ?_
    fun _ _ _ => .refl _
  · intro heq
    injection heq with _ heq
    exact hab heq
  · rw [ht.held]
    exact ha
  · rw [ht.held]
    exact hb
  · intro q hqa hqb
    exact hheld q (fun heq => hqa (heq ▸ rfl)) (fun heq => hqb (heq ▸ rfl))

end Steps

end Scheduler

end CppGo.Scheduling
