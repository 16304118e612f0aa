import CppGo.Scheduler.Schedulers
import CppGo.Scheduler.TaskCache

/-!
# Whose cache a task goes to

The done branch of every Processer gives the task to the cache of the default scheduler.  The
schedulers keep to themselves exactly as long as tasks end in the default one only.
-/

namespace CppGo.Scheduling

open CppGo.Lib CppGo.Lib.Machine

namespace Schedulers

variable {S T : Schedulers} {i p : Nat} {tk : TaskPtr} {a : Nat × SchedulerStep}

def Allocated (S : Schedulers) (i : Nat) (tk : TaskPtr) : Prop :=
  tk < (S.scheduler i).allocated ∧ S.object i tk = (i, tk)

/-- The object is in a queue, runs, is suspended or changes between these, on the scheduler
`j` and on one of its Processers. -/
def Live (S : Schedulers) (j : Nat) (o : Nat × TaskPtr) : Prop :=
  ∃ k tk, k ≠ .shared .free ∧ (S.scheduler j).Exists k ∧ tk ∈ (S.scheduler j).contents k ∧
    S.object j tk = o

def InCache (S : Schedulers) (j : Nat) (o : Nat × TaskPtr) : Prop :=
  ∃ tk ∈ (S.scheduler j).free_task_map_.values, S.object j tk = o

/-- Every task is live in the scheduler that has allocated it or in its cache, and nowhere
else; the caches have the right keys, and `CreateTask` uses what they hold. -/
structure KeepsCaches (S : Schedulers) : Prop where
  live_or_free : ∀ i tk, S.Allocated i tk → S.Live i (i, tk) ∨ S.InCache i (i, tk)
  not_both : ∀ i tk, S.Allocated i tk → ¬(S.Live i (i, tk) ∧ S.InCache i (i, tk))
  isolated : ∀ i tk, S.Allocated i tk → ∀ j ≠ i, ¬S.Live j (i, tk) ∧ ¬S.InCache j (i, tk)
  keys : ∀ i, ∀ n ∈ (S.scheduler i).free_task_map_.nodes,
    n.key = ((S.scheduler i).task n.value).stack_size_
  reuses : ∀ i n, (S.scheduler i).Reuses n

/-- No task ends on a Processer of another scheduler than the default one. -/
def EndsInDefault (S : Schedulers) (a : Nat × SchedulerStep) : Prop :=
  S.endsAbroad a.1 a.2 = none

instance (S : Schedulers) (a : Nat × SchedulerStep) : Decidable (S.EndsInDefault a) :=
  inferInstanceAs (Decidable (_ = _))

/-! ## While tasks end in the default scheduler -/

structure Apart (S : Schedulers) : Prop where
  coherent : ∀ i, (S.scheduler i).Coherent
  bounded : ∀ i, (S.scheduler i).Bounded
  cached : ∀ i, (S.scheduler i).Cached
  own : ∀ i tk, S.object i tk = (i, tk)

theorem apart_make : make.Apart where
  coherent _ := Scheduler.coherent_make
  bounded _ := Scheduler.bounded_make
  cached _ := Scheduler.cached_make
  own _ _ := rfl

theorem Apart.step (h : S.Apart) (ha : S.EndsInDefault a) (hs : S.step a = some T) : T.Apart := by
  unfold Schedulers.step at hs
  rw [show S.endsAbroad a.1 a.2 = none from ha] at hs
  obtain ⟨s, hstep, rfl⟩ := Option.map_eq_some_iff.mp hs
  have hall : ∀ {P : Scheduler → Prop}, P s → (∀ i, P (S.scheduler i)) → ∀ i,
      P (Function.update S.scheduler a.1 s i) := by
    intro P hnew hold i
    by_cases hi : i = a.1
    · rw [hi, Function.update_self]
      exact hnew
    · rw [Function.update_of_ne hi]
      exact hold i
  exact {
    coherent := hall ((h.coherent a.1).step hstep) h.coherent
    bounded := hall ((h.bounded a.1).step hstep) h.bounded
    cached := hall ((h.cached a.1).step (h.coherent a.1) hstep) h.cached
    own := h.own }

theorem Apart.keepsCaches (h : S.Apart) : S.KeepsCaches where
  live_or_free i tk htk := by
    obtain ⟨k, hk⟩ := ((h.coherent i).tidy.mem_iff tk).mp htk.1
    by_cases hfree : k = .shared .free
    · subst hfree
      exact .inr ⟨tk, hk, h.own i tk⟩
    · exact .inl ⟨k, tk, hfree, (h.bounded i).exists_of_mem hk, hk, h.own i tk⟩
  not_both i tk _ := by
    rintro ⟨⟨k, tk₁, hk, -, hlive, ho₁⟩, tk₂, hfree, ho₂⟩
    rw [h.own] at ho₁ ho₂
    cases ho₁
    cases ho₂
    exact (h.coherent i).not_free hlive hk hfree
  isolated i tk _ j hj := by
    constructor
    · rintro ⟨k, tk', -, -, -, ho⟩
      rw [h.own] at ho
      exact hj (congrArg Prod.fst ho)
    · rintro ⟨tk', -, ho⟩
      rw [h.own] at ho
      exact hj (congrArg Prod.fst ho)
  keys i n hn := (h.cached i n hn).1
  reuses i n := (h.cached i).reuses (h.coherent i)

/-! ## When a task ends elsewhere -/

theorem endsAbroad_some {e : SchedulerStep} (h : S.endsAbroad i e = some (p, tk)) :
    i ≠ 0 ∧ ((S.scheduler i).processers_ p).runningTask_ = some tk := by
  unfold endsAbroad at h
  split at h
  next p' =>
    dsimp only at h
    split at h
    next hpc =>
      obtain ⟨tk', hrun, heq⟩ := Option.map_eq_some_iff.mp h
      cases heq
      exact ⟨hpc.1, hrun⟩
    next => cases h
  next => cases h

theorem inCache_cacheInDefault (hi : i ≠ 0) (o : Nat × TaskPtr) (ho : S.object i tk = o) :
    (S.cacheInDefault i p tk).InCache 0 o := by
  have hdefault : (S.cacheInDefault i p tk).scheduler 0 =
      (S.scheduler 0).adopt ((S.scheduler i).task tk) := by
    unfold cacheInDefault
    dsimp only
    rw [Function.update_of_ne hi.symm, Function.update_self]
  refine ⟨(S.scheduler 0).allocated, ?_, ?_⟩
  · rw [hdefault]
    apply (Multimap.values_insert _ _).mem_iff.mpr
    exact List.mem_cons_self
  · unfold cacheInDefault
    dsimp only
    rw [Function.update_self, Function.update_self, ho]

theorem Apart.endsInDefault (h : S.Apart) (hs : S.step a = some T) (hT : T.KeepsCaches) :
    S.EndsInDefault a := by
  by_contra habroad
  obtain ⟨⟨p, tk⟩, hends⟩ := Option.ne_none_iff_exists'.mp habroad
  obtain ⟨hi, hrun⟩ := endsAbroad_some hends
  unfold Schedulers.step at hs
  rw [hends] at hs
  cases hs
  have hlt := (h.coherent a.1).lt_allocated hrun
  have hallocated : (S.cacheInDefault a.1 p tk).Allocated a.1 tk := by
    constructor
    · unfold cacheInDefault
      dsimp only
      rw [Function.update_self]
      exact hlt
    · show Function.update S.object 0 _ a.1 tk = _
      rw [Function.update_of_ne hi]
      exact h.own a.1 tk
  apply (hT.isolated a.1 tk hallocated 0 hi.symm).2
  exact inCache_cacheInDefault hi _ (h.own a.1 tk)

/-- The schedulers keep their tasks along a run exactly if no task ends elsewhere than in the
default scheduler. -/
theorem keepsCaches_iff {as : List (Nat × SchedulerStep)} (h : run step Free make as = some S) :
    (∀ bs T, bs <+: as → run step Free make bs = some T → T.KeepsCaches) ↔
      run step EndsInDefault make as = some S := by
  apply always_iff (I := Apart) _ _ _ apart_make h
  · exact fun S hS => hS.keepsCaches
  · exact fun S a T hS ha hs => hS.step ha hs
  · exact fun S a T hS hs hT => hS.endsInDefault hs hT

/-- Task 0 of the scheduler is created and queued, and it runs to its end on Processer 0. -/
def oneTask (i : Nat) : List (Nat × SchedulerStep) :=
  [(i, .createTask 8), (i, .addTask 0)] ++ .replicate 6 (i, .process 0) ++ [(i, .finish 0)] ++
    .replicate 4 (i, .process 0)

theorem keepsCaches_default : ∃ S, run step Free make (oneTask 0 ++ [(0, .createTask 5)]) = some S ∧
    ((S.scheduler 0).creating = [(0, 0)] ∧ (S.scheduler 0).allocated = 1) ∧
    ((∀ bs T, bs <+: oneTask 0 ++ [(0, .createTask 5)] → run step Free make bs = some T →
      T.KeepsCaches) ↔
      run step EndsInDefault make (oneTask 0 ++ [(0, .createTask 5)]) = some S) :=
  ⟨_, rfl, ⟨rfl, rfl⟩, keepsCaches_iff rfl⟩

/-- The task of scheduler 1 ends in the cache of the default scheduler. -/
theorem not_keepsCaches : ¬∀ as S, run step Free make as = some S → S.KeepsCaches := by
  intro h
  have hkeeps := h (oneTask 1) _ rfl
  apply (hkeeps.isolated 1 0 ⟨Nat.one_pos, rfl⟩ 0 (by decide)).2
  exact ⟨0, List.mem_cons_self, rfl⟩

end Schedulers

end CppGo.Scheduling
