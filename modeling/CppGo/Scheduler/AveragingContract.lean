import CppGo.Scheduler.Averaging
import Mathlib.Algebra.Order.BigOperators.Group.List

/-!
# What `AvgTotalTasks` leaves

A call that nobody disturbs returns, and the tasks are then spread evenly but for those that
are pinned by `runningTask_` and `nextTask_`.
-/

namespace CppGo.Scheduling

open CppGo.Lib

open scoped List

namespace Processer

def tasks (x : Processer) : TaskList := x.runnableQueue_ ++ x.newQueue_

/-- Each task is once in one of the two queues, and the pointers are to tasks of
`runnableQueue_`. -/
structure Orderly (x : Processer) : Prop where
  nodup : x.tasks.Nodup
  pinned : ∀ t, x.runningTask_ = some t ∨ x.nextTask_ = some t → t ∈ x.runnableQueue_

variable {x : Processer} {avg : Nat} {t : TaskPtr}

theorem length_tasks : x.tasks.length = x.runnableSize := List.length_append

theorem tasks_give (l : TaskList) : (x.give l).tasks = x.tasks ++ l :=
  (List.append_assoc ..).symm

theorem runnableSize_give (l : TaskList) : (x.give l).runnableSize = x.runnableSize + l.length := by
  rw [← length_tasks, tasks_give, List.length_append, length_tasks]

namespace Orderly

theorem not_mem_new (h : x.Orderly) (ht : t ∈ x.runnableQueue_) : t ∉ x.newQueue_ :=
  fun hnew => (List.disjoint_of_nodup_append h.nodup) ht hnew

theorem steals (h : x.Orderly) {n : Nat} (hn : n < 2 ^ 32) : x.Steals n (x.steal n) := by
  have hqueues := List.nodup_append.mp h.nodup
  apply Processer.steals hqueues.1 hqueues.2.1
  · exact fun tk hnew hrunnable => h.not_mem_new hrunnable hnew
  · exact fun tk htk => h.not_mem_new (h.pinned tk (.inl htk))
  · exact fun tk htk => h.not_mem_new (h.pinned tk (.inr htk))
  · exact hn

theorem perm_surplus (h : x.Orderly) (hsize : x.runnableSize < 2 ^ 32) :
    (x.surplus avg x.runnableSize).1.tasks ++ (x.surplus avg x.runnableSize).2 ~ x.tasks := by
  unfold surplus
  split
  · have hperm := (h.steals (n := x.runnableSize - avg) (by omega)).perm
    generalize x.steal (x.runnableSize - avg) = r at hperm ⊢
    unfold tasks
    rw [List.perm_iff_count] at hperm ⊢
    intro a
    have ha := hperm a
    simp only [List.count_append] at ha ⊢
    omega
  · rw [List.append_nil]

theorem mem_surplus (h : x.Orderly) (hsize : x.runnableSize < 2 ^ 32)
    (ht : x.runningTask_ = some t ∨ x.nextTask_ = some t) :
    t ∈ (x.surplus avg x.runnableSize).1.runnableQueue_ := by
  have hmem := h.pinned t ht
  unfold surplus
  split
  · have hsteals := h.steals (n := x.runnableSize - avg) (by omega)
    have hleft := hsteals.perm.mem_iff.mpr (List.mem_append_right _ hmem)
    rw [List.mem_append, List.mem_append] at hleft
    rcases hleft with (htaken | hnew) | hrunnable
    · cases ht with
      | inl ht => exact absurd htaken (hsteals.running t ht)
      | inr ht => exact absurd htaken (hsteals.next t ht)
    · exact absurd (hsteals.new.subset hnew) (h.not_mem_new hmem)
    · exact hrunnable
  · exact hmem

/-- Without pinned tasks the whole surplus is stolen. -/
theorem length_surplus (h : x.Orderly) (hsize : x.runnableSize < 2 ^ 32)
    (hrunning : x.runningTask_ = none) (hnext : x.nextTask_ = none) :
    (x.surplus avg x.runnableSize).2.length = x.runnableSize - avg := by
  unfold surplus
  split
  · have hlength := (h.steals (n := x.runnableSize - avg) (by omega)).length
    have hpinned : x.pinned = [] := by simp [Processer.pinned, hrunning, hnext]
    have havailable : x.available = x.runnableSize := by
      rw [available, hpinned, runnableSize, List.length_nil]
      omega
    rw [hlength, havailable]
    split <;> omega
  · rw [List.length_nil]
    omega

end Orderly

theorem surplus_of_le (h : x.runnableSize ≤ avg) : x.surplus avg x.runnableSize = (x, []) :=
  if_neg (Nat.not_lt.mpr h)

theorem steal_same (n : Nat) : (x.steal n).1 =
    { x with
      runnableQueue_ := (x.steal n).1.runnableQueue_
      newQueue_ := (x.steal n).1.newQueue_ } := by
  by_cases h : n > 0 ∧ (x.stealNew n).2.length ≥ n
  · have hnew : x.steal n = x.stealNew n := if_pos h
    rw [hnew]
    rfl
  · have hboth : x.steal n = (((x.stealNew n).1.stealRunnable n (x.stealNew n).2.length).1,
        ((x.stealNew n).1.stealRunnable n (x.stealNew n).2.length).2 ++ (x.stealNew n).2) :=
      if_neg h
    rw [hboth]
    rfl

theorem surplus_same (count : Nat) : (x.surplus avg count).1 =
    { x with
      runnableQueue_ := (x.surplus avg count).1.runnableQueue_
      newQueue_ := (x.surplus avg count).1.newQueue_ } := by
  unfold surplus
  split
  · exact steal_same _
  · rfl

end Processer

namespace Scheduler

variable {s t : Scheduler}

def tasks (s : Scheduler) : TaskList :=
  (List.range s.size).flatMap fun p => (s.processers_ p).tasks

def counts (s : Scheduler) : List Nat :=
  (List.range s.size).map fun p => (s.processers_ p).runnableSize

def total (s : Scheduler) : Nat := s.counts.sum

def average (s : Scheduler) : Nat := s.total / s.size

/-- Each task is in one queue, once, and the pointers of a Processer are to its own tasks. -/
structure Orderly (s : Scheduler) : Prop where
  nodup : s.tasks.Nodup
  pinned : ∀ p < s.size, ∀ tk, (s.processers_ p).runningTask_ = some tk ∨
    (s.processers_ p).nextTask_ = some tk → tk ∈ (s.processers_ p).runnableQueue_

def Unpinned (s : Scheduler) : Prop :=
  ∀ p < s.size, (s.processers_ p).runningTask_ = none ∧ (s.processers_ p).nextTask_ = none

/-- `t` is what a call of `AvgTotalTasks` in `s` leaves. -/
structure Balances (s t : Scheduler) : Prop where
  frame : t = { s with processers_ := t.processers_ }
  same : ∀ p < s.size, t.processers_ p =
    { s.processers_ p with
      runnableQueue_ := (t.processers_ p).runnableQueue_
      newQueue_ := (t.processers_ p).newQueue_ }
  perm : t.tasks ~ s.tasks
  still : s.average = 0 → t = s
  pinned : ∀ p < s.size, ∀ tk, (s.processers_ p).runningTask_ = some tk ∨
    (s.processers_ p).nextTask_ = some tk → tk ∈ (t.processers_ p).runnableQueue_
  atMost : ∀ p < s.size, p ≠ 0 →
    (t.processers_ p).runnableSize ≤ max s.average (s.processers_ p).runnableSize
  keeps : ∀ p < s.size, (s.processers_ p).runnableSize ≤ s.average →
    ∀ tk ∈ (s.processers_ p).tasks, tk ∈ (t.processers_ p).tasks
  even : s.Unpinned → s.average ≠ 0 → ∀ p < s.size, (t.processers_ p).runnableSize =
    if p = 0 then s.average + s.total % s.size else s.average

theorem Orderly.processer (h : s.Orderly) {p : Nat} (hp : p < s.size) :
    (s.processers_ p).Orderly where
  nodup := (List.nodup_flatMap.mp h.nodup).1 p (List.mem_range.mpr hp)
  pinned := h.pinned p hp

theorem runnableSize_le_total {p : Nat} (hp : p < s.size) :
    (s.processers_ p).runnableSize ≤ s.total :=
  List.single_le_sum (fun _ _ => Nat.zero_le _) _ (List.mem_map_of_mem (List.mem_range.mpr hp))

section Call

theorem getD_counts {p : Nat} (hp : p < s.size) :
    s.counts.getD p 0 = (s.processers_ p).runnableSize := by
  simp [counts, List.getD, hp]

def spared (s : Scheduler) (p : Nat) : Processer × TaskList :=
  (s.processers_ p).surplus s.average (s.processers_ p).runnableSize

theorem taken_eq {p : Nat} (hp : p < s.size) :
    taken s.processers_ s.average s.counts p = s.spared p := by
  rw [taken, getD_counts hp]
  rfl

def need (s : Scheduler) (p : Nat) : Nat := s.average - s.counts.getD p 0

def loot (s : Scheduler) : TaskList := (List.range s.size).flatMap fun p => (s.spared p).2

/-- What the Processer `p` gets: `given` by the loop, and all that is left if it is the first. -/
def share (given : Nat → TaskList) (rest : TaskList) (p : Nat) : TaskList :=
  given p ++ if p = 0 then rest else []

structure Dealt (s t : Scheduler) (given : Nat → TaskList) (rest : TaskList) : Prop where
  deal : Deal s.need 0 s.size s.loot given rest
  frame : t = { s with processers_ := t.processers_ }
  here : ∀ p < s.size, t.processers_ p = (s.spared p).1.give (share given rest p)

theorem runs_average (hidle : s.dispatcher = .idle) (hsize : 2 ≤ s.size) :
    Runs s.avgTotalTasks (s.during s.processers_
      (if s.average = 0 then .idle else .steal ⟨s.counts, s.average, 0, []⟩)) := by
  have hstart : s.avgTotalTasks = s.during s.processers_ (.sizeRunnable []) := by
    unfold avgTotalTasks
    rw [hidle]
    exact if_neg (Nat.not_lt.mpr hsize)
  have hlength : s.counts.length = s.size := by simp [counts]
  rw [hstart]
  exact (runs_countLoop s.size (Nat.le_refl _)).trans (runs_counted hlength)

theorem returns_still (hidle : s.dispatcher = .idle) (hsize : 2 ≤ s.size) (h : s.average = 0) :
    Returns s.avgTotalTasks s := by
  have hruns := runs_average hidle hsize
  have hsame : s.during s.processers_ .idle = s := by
    unfold during
    rw [← hidle]
  rw [if_pos h, hsame] at hruns
  exact ⟨hruns, hidle⟩

theorem returns_dealt (hidle : s.dispatcher = .idle) (hsize : 2 ≤ s.size) (h : s.average ≠ 0)
    (hs : s.Orderly) : ∃ t given rest, Returns s.avgTotalTasks t ∧ Dealt s t given rest := by
  have hruns := runs_average hidle hsize
  rw [if_neg h] at hruns
  have hstolen := runs_stealLoop (f := s.processers_) s.average s.counts s.size (Nat.le_refl _)
    hs.pinned
  have hloot : ((List.range s.size).flatMap fun p =>
      (taken s.processers_ s.average s.counts p).2) = s.loot := by
    apply List.flatMap_congr
    intro p hp
    rw [taken_eq (List.mem_range.mp hp)]
  rw [hloot] at hstolen
  have hturn := runs_steal_end (s := s) (f := stolen s.processers_ s.average s.counts s.size)
    (a := ⟨s.counts, s.average, s.size, s.loot⟩) rfl
  obtain ⟨given, rest, hdeal, hdealt⟩ := runs_dealLoop (s := s)
    (f := stolen s.processers_ s.average s.counts s.size) s.average s.counts s.size 0 s.loot
    (Nat.zero_add _)
  refine ⟨_, given, rest,
    ⟨(((hruns.trans hstolen).trans hturn).trans hdealt).trans runs_left, rfl⟩, hdeal, ?_, ?_⟩
  · unfold during
    rw [hidle]
  · intro p hp
    have hhere : stolen s.processers_ s.average s.counts s.size p = (s.spared p).1 := by
      rw [stolen, if_pos hp, taken_eq hp]
    calc ((stolen s.processers_ s.average s.counts s.size p).give (given p)).give
          (if p = 0 then rest else [])
        = ((s.spared p).1.give (given p)).give (if p = 0 then rest else []) := by rw [hhere]
      _ = (s.spared p).1.give (share given rest p) := Processer.give_give ..

end Call

section Dealt

variable {given : Nat → TaskList} {rest : TaskList}

theorem Orderly.perm_spared (hs : s.Orderly) (hwidth : s.total < 2 ^ 32) {p : Nat}
    (hp : p < s.size) : (s.spared p).1.tasks ++ (s.spared p).2 ~ (s.processers_ p).tasks :=
  (hs.processer hp).perm_surplus ((runnableSize_le_total hp).trans_lt hwidth)

theorem need_eq {p : Nat} (hp : p < s.size) :
    s.need p = s.average - (s.processers_ p).runnableSize := by
  rw [need, getD_counts hp]

theorem spared_of_le {p : Nat} (h : (s.processers_ p).runnableSize ≤ s.average) :
    s.spared p = (s.processers_ p, []) :=
  Processer.surplus_of_le h

/-- Without pinned tasks, what is stolen is enough for all deficits. -/
theorem Orderly.length_loot (hs : s.Orderly) (hwidth : s.total < 2 ^ 32) (hfree : s.Unpinned) :
    s.loot.length = ((List.range' 0 s.size).map s.need).sum + s.total % s.size := by
  have hloot : s.loot.length =
      ((List.range s.size).map fun p => (s.processers_ p).runnableSize - s.average).sum := by
    rw [loot, List.length_flatMap]
    congr 1
    apply List.map_congr_left
    intro p hp
    have hp' := List.mem_range.mp hp
    exact (hs.processer hp').length_surplus ((runnableSize_le_total hp').trans_lt hwidth)
      (hfree p hp').1 (hfree p hp').2
  have hneed : (List.range s.size).map s.need =
      (List.range s.size).map fun p => s.average - (s.processers_ p).runnableSize := by
    apply List.map_congr_left
    intro p hp
    exact need_eq (List.mem_range.mp hp)
  have haverage : s.average = s.counts.sum / (List.range s.size).length := by
    rw [List.length_range]
    rfl
  have hsurplus := surplus_eq haverage
  rw [List.length_range] at hsurplus
  rw [hloot, ← List.range_eq_range', hneed]
  exact hsurplus

namespace Dealt

variable (h : Dealt s t given rest)

include h

theorem size_eq : t.size = s.size := by
  rw [h.frame]

theorem tasks_eq {p : Nat} (hp : p < s.size) :
    (t.processers_ p).tasks = (s.spared p).1.tasks ++ share given rest p := by
  rw [h.here p hp, Processer.tasks_give]

theorem runnableSize_eq (hs : s.Orderly) (hwidth : s.total < 2 ^ 32) {p : Nat} (hp : p < s.size) :
    (t.processers_ p).runnableSize + (s.spared p).2.length =
      (s.processers_ p).runnableSize + (share given rest p).length := by
  have hperm := (hs.perm_spared hwidth hp).length_eq
  rw [List.length_append, Processer.length_tasks, Processer.length_tasks] at hperm
  rw [h.here p hp, Processer.runnableSize_give]
  omega

theorem perm_share (hsize : 0 < s.size) :
    (List.range s.size).flatMap (share given rest) ~ s.loot := by
  have hrest : ((List.range s.size).flatMap fun p => if p = 0 then rest else []) = rest := by
    obtain ⟨n, hn⟩ := Nat.exists_eq_add_one.mpr hsize
    rw [hn, List.range_succ_eq_map, List.flatMap_cons, if_pos rfl, List.flatMap_map]
    simp
  calc (List.range s.size).flatMap (share given rest)
      ~ (List.range s.size).flatMap given ++
          (List.range s.size).flatMap fun p => if p = 0 then rest else [] :=
        (List.flatMap_append_perm ..).symm
    _ = (List.range' 0 s.size).flatMap given ++ rest := by rw [hrest, List.range_eq_range']
    _ = s.loot := h.deal.split

theorem same {p : Nat} (hp : p < s.size) : t.processers_ p =
    { s.processers_ p with
      runnableQueue_ := (t.processers_ p).runnableQueue_
      newQueue_ := (t.processers_ p).newQueue_ } := by
  have hspared : (s.spared p).1 = _ := Processer.surplus_same (s.processers_ p).runnableSize
  rw [h.here p hp, hspared]
  rfl

theorem perm (hs : s.Orderly) (hwidth : s.total < 2 ^ 32) (hsize : 0 < s.size) :
    t.tasks ~ s.tasks := by
  have hhere : t.tasks =
      (List.range s.size).flatMap fun p => (s.spared p).1.tasks ++ share given rest p := by
    rw [tasks, h.size_eq]
    apply List.flatMap_congr
    intro p hp
    exact h.tasks_eq (List.mem_range.mp hp)
  calc t.tasks
      = (List.range s.size).flatMap fun p => (s.spared p).1.tasks ++ share given rest p := hhere
    _ ~ ((List.range s.size).flatMap fun p => (s.spared p).1.tasks) ++
          (List.range s.size).flatMap (share given rest) := (List.flatMap_append_perm ..).symm
    _ ~ ((List.range s.size).flatMap fun p => (s.spared p).1.tasks) ++ s.loot :=
        (h.perm_share hsize).append_left _
    _ ~ (List.range s.size).flatMap fun p => (s.spared p).1.tasks ++ (s.spared p).2 :=
        List.flatMap_append_perm ..
    _ ~ s.tasks := List.Perm.flatMap_left _ fun p hp => hs.perm_spared hwidth (List.mem_range.mp hp)

theorem pinned (hs : s.Orderly) (hwidth : s.total < 2 ^ 32) {p : Nat} (hp : p < s.size)
    {tk : TaskPtr} (htk : (s.processers_ p).runningTask_ = some tk ∨
      (s.processers_ p).nextTask_ = some tk) : tk ∈ (t.processers_ p).runnableQueue_ := by
  rw [h.here p hp]
  exact (hs.processer hp).mem_surplus ((runnableSize_le_total hp).trans_lt hwidth) htk

theorem atMost (hs : s.Orderly) (hwidth : s.total < 2 ^ 32) {p : Nat} (hp : p < s.size)
    (hzero : p ≠ 0) :
    (t.processers_ p).runnableSize ≤ max s.average (s.processers_ p).runnableSize := by
  have hsize := h.runnableSize_eq hs hwidth hp
  have hgiven := h.deal.atMost p
  rw [need_eq hp] at hgiven
  rw [share, if_neg hzero, List.append_nil] at hsize
  omega

theorem keeps {p : Nat} (hp : p < s.size) (hle : (s.processers_ p).runnableSize ≤ s.average)
    {tk : TaskPtr} (htk : tk ∈ (s.processers_ p).tasks) : tk ∈ (t.processers_ p).tasks := by
  rw [h.tasks_eq hp, spared_of_le hle]
  exact List.mem_append_left _ htk

theorem even (hs : s.Orderly) (hwidth : s.total < 2 ^ 32) (hfree : s.Unpinned) {p : Nat}
    (hp : p < s.size) : (t.processers_ p).runnableSize =
      if p = 0 then s.average + s.total % s.size else s.average := by
  have hloot := hs.length_loot hwidth hfree
  have hgiven := h.deal.enough (by omega) p (Nat.zero_le p) (by omega)
  have hrest := h.deal.length_rest (by omega)
  have hsize := h.runnableSize_eq hs hwidth hp
  have htaken : (s.spared p).2.length = (s.processers_ p).runnableSize - s.average :=
    (hs.processer hp).length_surplus ((runnableSize_le_total hp).trans_lt hwidth)
      (hfree p hp).1 (hfree p hp).2
  rw [need_eq hp] at hgiven
  by_cases hzero : p = 0
  · rw [share, if_pos hzero, List.length_append] at hsize
    rw [if_pos hzero]
    omega
  · rw [share, if_neg hzero, List.append_nil] at hsize
    rw [if_neg hzero]
    omega

end Dealt

end Dealt

section Balance

theorem Balances.refl (hs : s.Orderly) (h : s.average = 0) : Balances s s where
  frame := rfl
  same _ _ := rfl
  perm := .refl _
  still _ := rfl
  pinned := hs.pinned
  atMost _ _ _ := Nat.le_max_right ..
  keeps _ _ _ _ htk := htk
  even _ hne := absurd h hne

theorem Dealt.balances {given : Nat → TaskList} {rest : TaskList} (h : Dealt s t given rest)
    (hs : s.Orderly) (hwidth : s.total < 2 ^ 32) (hsize : 0 < s.size) (hne : s.average ≠ 0) :
    Balances s t where
  frame := h.frame
  same _ hp := h.same hp
  perm := h.perm hs hwidth hsize
  still hzero := absurd hzero hne
  pinned _ hp _ htk := h.pinned hs hwidth hp htk
  atMost _ hp hzero := h.atMost hs hwidth hp hzero
  keeps _ hp hle _ htk := h.keeps hp hle htk
  even hfree _ _ hp := h.even hs hwidth hfree hp

/-- A call of `AvgTotalTasks` that nobody disturbs returns, and it balances the queues. -/
theorem avgTotalTasks_balances (hidle : s.dispatcher = .idle) (hsize : 2 ≤ s.size)
    (hs : s.Orderly) (hwidth : s.total < 2 ^ 32) :
    (∃ t, Returns s.avgTotalTasks t) ∧ ∀ t, Returns s.avgTotalTasks t → Balances s t := by
  by_cases h : s.average = 0
  · have hreturns := returns_still hidle hsize h
    refine ⟨⟨s, hreturns⟩, ?_⟩
    intro t ht
    rw [ht.unique hreturns]
    exact .refl hs h
  · obtain ⟨u, given, rest, hreturns, hdealt⟩ := returns_dealt hidle hsize h hs
    refine ⟨⟨u, hreturns⟩, ?_⟩
    intro t ht
    rw [ht.unique hreturns]
    exact hdealt.balances hs hwidth (by omega) h

/-- All tasks are at the first of three Processers, which runs one of them. -/
def crowded : Scheduler :=
  { make with
    size := 3
    processers_ := fun p =>
      if p = 0 then
        { Processer.make with
          runningTask_ := some 1
          nextTask_ := some 2
          runnableQueue_ := [0, 1, 2, 3]
          newQueue_ := [4, 5, 6] }
      else .make }

theorem orderly_crowded : crowded.Orderly where
  nodup := by decide
  pinned := by
    intro p _ tk htk
    by_cases hp : p = 0
    · subst hp
      rcases htk with htk | htk <;> cases htk <;> decide
    · have hmake : crowded.processers_ p = .make := if_neg hp
      rw [hmake] at htk
      rcases htk with htk | htk <;> cases htk

theorem avgTotalTasks_balances_crowded : (∃ t, Returns crowded.avgTotalTasks t) ∧
    ∀ t, Returns crowded.avgTotalTasks t → Balances crowded t :=
  avgTotalTasks_balances rfl (by decide) orderly_crowded (by decide)

end Balance

end Scheduler

end CppGo.Scheduling
