import CppGo.Lib.Dealing
import CppGo.Scheduler.Places
import CppGo.Scheduler.Steal

/-!
# The loops of `AvgTotalTasks`

What a call of `AvgTotalTasks` does when no other thread takes a step: it counts the tasks of
every Processer, steals what they have above the average, and deals it to those below.
-/

namespace CppGo.Scheduling

open CppGo.Lib

namespace Processer

def runnableSize (x : Processer) : Nat := x.runnableQueue_.length + x.newQueue_.length

/-- `AddTask` of a list -/
def give (x : Processer) (slist : TaskList) : Processer :=
  { x with newQueue_ := x.newQueue_.pushWithoutLock slist }

/-- What a Processer with `count` tasks keeps and what is stolen from it. -/
def surplus (x : Processer) (avg count : Nat) : Processer × TaskList :=
  if avg < count then x.steal (count - avg) else (x, [])

theorem give_nil (x : Processer) : x.give [] = x := by
  simp [give, TaskQueue.pushWithoutLock]

theorem give_give (x : Processer) (l l' : TaskList) : (x.give l).give l' = x.give (l ++ l') := by
  simp [give, TaskQueue.pushWithoutLock]

end Processer

namespace Scheduler

variable {s t u : Scheduler}

/-- The dispatcher goes on with its call of `AvgTotalTasks`, and nobody else takes a step. -/
inductive Runs : Scheduler → Scheduler → Prop
  | refl {s : Scheduler} : Runs s s
  | step {s t u : Scheduler} (h : s.dispatcher ≠ .idle) (hstep : s.step .avgTotalTasks = some t)
      (hrest : Runs t u) : Runs s u

def Returns (s t : Scheduler) : Prop := Runs s t ∧ t.dispatcher = .idle

theorem Runs.trans (hst : Runs s t) (htu : Runs t u) : Runs s u := by
  induction hst with
  | refl => exact htu
  | step h hstep _ ih => exact .step h hstep (ih htu)

theorem Runs.single (h : s.dispatcher ≠ .idle) (ht : s.avgTotalTasks = t) : Runs s t :=
  .step h (congrArg some ht) .refl

theorem Returns.unique (ht : Returns s t) (hu : Returns s u) : t = u := by
  obtain ⟨hrun, hidle⟩ := ht
  induction hrun with
  | refl =>
      cases hu.1 with
      | refl => rfl
      | step h => exact absurd hidle h
  | step h hstep _ ih =>
      refine ih ⟨?_, hu.2⟩ hidle
      cases hu.1 with
      | refl => exact absurd hu.2 h
      | step _ hstep' hrest =>
          rw [hstep] at hstep'
          injection hstep' with heq
          rw [heq]
          exact hrest

section During

variable {f : Nat → Processer} {a : Averaging} {l : TaskList}

def during (s : Scheduler) (f : Nat → Processer) (pc : DispatcherPc) : Scheduler :=
  { s with processers_ := f, dispatcher := pc }

theorem runs_count {counts : List Nat} (h : counts.length < s.size) :
    Runs (s.during f (.sizeRunnable counts))
      (s.during f (.sizeRunnable (counts ++ [(f counts.length).runnableSize]))) := by
  have hrunnable : (s.during f (.sizeRunnable counts)).avgTotalTasks =
      s.during f (.sizeNew counts (f counts.length).runnableQueue_.length) := if_pos h
  exact .step DispatcherPc.noConfusion (congrArg some hrunnable)
    (.single DispatcherPc.noConfusion rfl)

theorem runs_counted {counts : List Nat} (h : counts.length = s.size) :
    Runs (s.during f (.sizeRunnable counts))
      (s.during f (if counts.sum / s.size = 0 then .idle else
        .steal { cacheTaskCounts := counts, avg := counts.sum / s.size, i := 0, tasks := [] })) :=
  .single DispatcherPc.noConfusion (if_neg (by rw [h]; exact Nat.lt_irrefl s.size))

/-- The second critical section of `Steal`, whose assertion holds. -/
theorem stealRunnable_during {n : Nat} {x : Processer} (hx : f a.i = x)
    (howns : ∀ tk, x.runningTask_ = some tk ∨ x.nextTask_ = some tk → tk ∈ x.runnableQueue_) :
    (s.during f (.stealRunnable a n l)).avgTotalTasks =
      s.during (Function.update f a.i (x.stealRunnable n l.length).1)
        (.steal { a with
          i := a.i + 1
          tasks := a.tasks ++ ((x.stealRunnable n l.length).2 ++ l) }) := by
  subst hx
  have howned : ∀ hook : Option TaskPtr, (∀ tk, hook = some tk → tk ∈ (f a.i).runnableQueue_) →
      (s.during f (.stealRunnable a n l)).owns a.i hook = true := by
    intro hook hmem
    cases hook with
    | none => rfl
    | some tk => exact owns_of_mem (hmem tk rfl)
  have hrunning := howned _ fun tk htk => howns tk (.inl htk)
  have hnext := howned _ fun tk htk => howns tk (.inr htk)
  have hassert : (s.during f (.stealRunnable a n l)).assert
      ((s.during f (.stealRunnable a n l)).owns a.i (f a.i).runningTask_ &&
        (s.during f (.stealRunnable a n l)).owns a.i (f a.i).nextTask_) =
      s.during f (.stealRunnable a n l) := by
    rw [hrunning, hnext]
    exact assert_true
  exact congrArg (fun u : Scheduler =>
    { u.setProcesser a.i ((f a.i).stealRunnable n l.length).1 with
      dispatcher := .steal { a with
        i := a.i + 1
        tasks := a.tasks ++ (((f a.i).stealRunnable n l.length).2 ++ l) } }) hassert

theorem runs_steal (hi : a.i < s.size)
    (howns : ∀ tk, (f a.i).runningTask_ = some tk ∨ (f a.i).nextTask_ = some tk →
      tk ∈ (f a.i).runnableQueue_) :
    let r := (f a.i).surplus a.avg (a.cacheTaskCounts.getD a.i 0)
    Runs (s.during f (.steal a))
      (s.during (Function.update f a.i r.1)
        (.steal { a with i := a.i + 1, tasks := a.tasks ++ r.2 })) := by
  generalize hcount : a.cacheTaskCounts.getD a.i 0 = count
  show Runs _ (s.during (Function.update f a.i ((f a.i).surplus a.avg count).1) _)
  have hturn : (s.during f (.steal a)).avgTotalTasks = (s.during f (.steal a)).steal a := rfl
  by_cases hlt : a.avg < count
  · generalize hn : count - a.avg = n
    have hsurplus : (f a.i).surplus a.avg count = (f a.i).steal n := by
      rw [Processer.surplus, if_pos hlt, hn]
    generalize hr : (f a.i).stealNew n = r
    have hnew : (s.during f (.steal a)).avgTotalTasks =
        s.during (Function.update f a.i r.1)
          (if n > 0 ∧ r.2.length ≥ n then
            .steal { a with i := a.i + 1, tasks := a.tasks ++ r.2 }
          else .stealRunnable a n r.2) := by
      have hi' : a.i < (s.during f (.steal a)).size := hi
      rw [hturn, Scheduler.steal, if_pos hi', hcount, if_pos hlt, hn]
      rw [← hr]
      rfl
    rw [hsurplus, Processer.steal, hr]
    by_cases henough : n > 0 ∧ r.2.length ≥ n
    · rw [if_pos henough] at hnew ⊢
      exact .single DispatcherPc.noConfusion hnew
    · rw [if_neg henough] at hnew ⊢
      refine .step DispatcherPc.noConfusion (congrArg some hnew) ?_
      have hrest := stealRunnable_during (s := s) (f := Function.update f a.i r.1) (a := a)
        (l := r.2) (n := n) (Function.update_self ..) (by rw [← hr]; exact howns)
      rw [Function.update_idem] at hrest
      exact .single DispatcherPc.noConfusion hrest
  · have hsurplus : (f a.i).surplus a.avg count = (f a.i, []) := if_neg hlt
    have hi' : a.i < (s.during f (.steal a)).size := hi
    rw [hsurplus, Function.update_eq_self, List.append_nil]
    apply Runs.single DispatcherPc.noConfusion
    rw [hturn, Scheduler.steal, if_pos hi', hcount, if_neg hlt]
    rfl

theorem runs_steal_end (hi : a.i = s.size) :
    Runs (s.during f (.steal a)) (s.during f (.deal { a with i := 0 })) :=
  .single DispatcherPc.noConfusion (if_neg (by rw [hi]; exact Nat.lt_irrefl s.size))

theorem runs_deal_skip (hi : a.i < s.size) (h : a.cacheTaskCounts.getD a.i 0 ≥ a.avg) :
    Runs (s.during f (.deal a)) (s.during f (.deal { a with i := a.i + 1 })) := by
  apply Runs.single DispatcherPc.noConfusion
  have hi' : a.i < (s.during f (.deal a)).size := hi
  show (s.during f (.deal a)).deal a = _
  rw [Scheduler.deal, if_pos hi']
  exact if_neg (Nat.not_lt.mpr h)

theorem deal_during (hi : a.i < s.size) (h : a.cacheTaskCounts.getD a.i 0 < a.avg) {n : Nat}
    (hn : a.avg - a.cacheTaskCounts.getD a.i 0 = n) :
    (s.during f (.deal a)).avgTotalTasks =
      s.during f (if (a.tasks.take n).isEmpty then .left (a.tasks.drop n) else
        .addTask { a with tasks := a.tasks.drop n } (a.tasks.take n)) := by
  have hi' : a.i < (s.during f (.deal a)).size := hi
  show (s.during f (.deal a)).deal a = _
  subst hn
  rw [Scheduler.deal, if_pos hi']
  refine (if_pos h).trans ?_
  rw [TaskList.cut, List.splitAt_eq]
  rfl

theorem runs_deal (hi : a.i < s.size) (h : a.cacheTaskCounts.getD a.i 0 < a.avg) {n : Nat}
    (hn : a.avg - a.cacheTaskCounts.getD a.i 0 = n) (htasks : a.tasks ≠ []) :
    Runs (s.during f (.deal a))
      (s.during (Function.update f a.i ((f a.i).give (a.tasks.take n)))
        (.deal { a with i := a.i + 1, tasks := a.tasks.drop n })) := by
  have hstep := deal_during (f := f) hi h hn
  have htake : (a.tasks.take n).isEmpty = false := by
    rw [List.isEmpty_eq_false_iff, ← List.length_pos_iff, List.length_take]
    have := List.length_pos_iff.mpr htasks
    omega
  rw [htake] at hstep
  exact .step DispatcherPc.noConfusion (congrArg some hstep)
    (.single DispatcherPc.noConfusion rfl)

theorem runs_deal_break (hi : a.i < s.size) (h : a.cacheTaskCounts.getD a.i 0 < a.avg)
    (htasks : a.tasks = []) : Runs (s.during f (.deal a)) (s.during f (.left [])) := by
  have hstep := deal_during (f := f) hi h rfl
  rw [htasks, List.take_nil, List.drop_nil] at hstep
  exact .single DispatcherPc.noConfusion hstep

theorem runs_deal_end (hi : a.i = s.size) :
    Runs (s.during f (.deal a)) (s.during f (.left a.tasks)) :=
  .single DispatcherPc.noConfusion (if_neg (by rw [hi]; exact Nat.lt_irrefl s.size))

theorem runs_left : Runs (s.during f (.left l))
    (s.during (fun p => (f p).give (if p = 0 then l else [])) .idle) := by
  apply Runs.single DispatcherPc.noConfusion
  have hgive : (fun p => (f p).give (if p = 0 then l else [])) =
      Function.update f 0 ((f 0).give l) := by
    ext1 p
    by_cases hp : p = 0
    · rw [hp, Function.update_self, if_pos rfl]
    · rw [Function.update_of_ne hp, if_neg hp, Processer.give_nil]
  rw [hgive]
  cases l with
  | nil =>
      rw [Processer.give_nil, Function.update_eq_self]
      rfl
  | cons tk l => rfl

end During

section Loops

variable {f : Nat → Processer} {avg : Nat} {counts : List Nat}

theorem runs_countLoop (n : Nat) (hn : n ≤ s.size) :
    Runs (s.during f (.sizeRunnable []))
      (s.during f (.sizeRunnable ((List.range n).map fun p => (f p).runnableSize))) := by
  induction n with
  | zero => exact .refl
  | succ n ih =>
      have hlength : ((List.range n).map fun p => (f p).runnableSize).length = n := by simp
      have hturn := runs_count (f := f) (hlength.trans_lt hn)
      rw [hlength] at hturn
      rw [List.range_succ, List.map_append]
      exact (ih (Nat.le_of_succ_le hn)).trans hturn

def taken (f : Nat → Processer) (avg : Nat) (counts : List Nat) (p : Nat) : Processer × TaskList :=
  (f p).surplus avg (counts.getD p 0)

def stolen (f : Nat → Processer) (avg : Nat) (counts : List Nat) (n p : Nat) : Processer :=
  if p < n then (taken f avg counts p).1 else f p

theorem stolen_succ {n : Nat} : Function.update (stolen f avg counts n) n (taken f avg counts n).1 =
    stolen f avg counts (n + 1) := by
  ext1 p
  unfold stolen
  by_cases hp : p = n
  · subst hp
    rw [Function.update_self, if_pos (Nat.lt_succ_self p)]
  · rw [Function.update_of_ne hp]
    have hiff : p < n ↔ p < n + 1 := by omega
    rw [if_congr hiff rfl rfl]

theorem runs_stealLoop (avg : Nat) (counts : List Nat) (n : Nat) (hn : n ≤ s.size)
    (howns : ∀ p < s.size, ∀ tk, (f p).runningTask_ = some tk ∨ (f p).nextTask_ = some tk →
      tk ∈ (f p).runnableQueue_) :
    Runs (s.during f (.steal ⟨counts, avg, 0, []⟩))
      (s.during (stolen f avg counts n)
        (.steal ⟨counts, avg, n, (List.range n).flatMap fun p => (taken f avg counts p).2⟩)) := by
  induction n with
  | zero => exact .refl
  | succ n ih =>
      have hhere : stolen f avg counts n n = f n := if_neg (Nat.lt_irrefl n)
      have hturn := runs_steal (s := s) (f := stolen f avg counts n)
        (a := ⟨counts, avg, n, (List.range n).flatMap fun p => (taken f avg counts p).2⟩) hn
        (by rw [hhere]; exact howns n hn)
      have htaken : (stolen f avg counts n n).surplus avg (counts.getD n 0) =
          taken f avg counts n := by
        rw [hhere]
        rfl
      simp only [htaken] at hturn
      rw [stolen_succ] at hturn
      rw [List.range_succ, List.flatMap_append, List.flatMap_singleton]
      exact (ih (Nat.le_of_succ_le hn)).trans hturn

def deficit (avg : Nat) (counts : List Nat) (p : Nat) : Nat := avg - counts.getD p 0

theorem give_update {given : Nat → TaskList} {i : Nat} {l : TaskList} (hi : given i = []) :
    (fun p => (Function.update f i ((f i).give l) p).give (given p)) =
      fun p => (f p).give (Function.update given i l p) := by
  ext1 p
  by_cases hp : p = i
  · rw [hp, Function.update_self, Function.update_self, hi, Processer.give_nil]
  · rw [Function.update_of_ne hp, Function.update_of_ne hp]

theorem runs_dealLoop (avg : Nat) (counts : List Nat) (n i : Nat) (tasks : TaskList)
    (hn : i + n = s.size) :
    ∃ given rest, Deal (deficit avg counts) i n tasks given rest ∧
      Runs (s.during f (.deal ⟨counts, avg, i, tasks⟩))
        (s.during (fun p => (f p).give (given p)) (.left rest)) := by
  induction n generalizing i tasks f with
  | zero =>
      refine ⟨_, _, .done, ?_⟩
      simp only [Processer.give_nil]
      exact runs_deal_end hn
  | succ n ih =>
      have hi : i < s.size := by omega
      by_cases hlt : counts.getD i 0 < avg
      · by_cases htasks : tasks = []
        · subst htasks
          refine ⟨_, _, .nothing, ?_⟩
          simp only [Processer.give_nil]
          exact runs_deal_break hi hlt rfl
        · obtain ⟨given, rest, hdeal, hruns⟩ := ih
            (f := Function.update f i ((f i).give (tasks.take (deficit avg counts i))))
            (i + 1) (tasks.drop (deficit avg counts i)) (by omega)
          refine ⟨_, _, hdeal.turn, ?_⟩
          rw [give_update (hdeal.outside i (.inl (Nat.lt_succ_self i)))] at hruns
          exact (runs_deal hi hlt rfl htasks).trans hruns
      · have hnone : deficit avg counts i = 0 := by
          unfold deficit
          omega
        obtain ⟨given, rest, hdeal, hruns⟩ := ih (f := f) (i + 1) tasks (by omega)
        have hsame : Function.update given i (tasks.take (deficit avg counts i)) = given := by
          rw [hnone, List.take_zero, ← hdeal.outside i (.inl (Nat.lt_succ_self i)),
            Function.update_eq_self]
        refine ⟨given, rest, hsame ▸ Deal.turn ?_, ?_⟩
        · rw [hnone]
          exact hdeal
        · exact (runs_deal_skip hi (Nat.not_lt.mp hlt)).trans hruns

end Loops

end Scheduler

end CppGo.Scheduling
