import CppGo.Common.TSQueueContract
import CppGo.Lib.Procedure
import CppGo.Scheduler.Steal

/-!
# `Steal` on the links of the queues

`Steal` as it calls the operations of `TSQueue` and `SList`, which move the hooks of the tasks
in the heap.  It takes what `Steal` on lists takes, and leaves every queue and list well linked.
-/

namespace CppGo.Scheduling

open CppGo.Lib CppGo.Lib.Links CppGo.Lib.Procedure CppGo.Common

open scoped List

/-- A `Processer` over a heap: its two queues are the numbers of `TSQueue`s. -/
structure ProcesserLinks where
  runnableQueue_ : Nat
  newQueue_ : Nat
  runningTask_ : Option Nat
  nextTask_ : Option Nat
deriving DecidableEq, Repr

/-- What has the operations of `TSQueue` and `SList`; `size` is `SList::size`. -/
structure QueueObject (σ : Type) where
  step : σ → Operation → Option (σ × Result)
  size : σ → Nat → Option Nat

namespace QueueObject

def onHeap : QueueObject Heap :=
  { step := Heap.step, size := fun s j => s.slists[j]?.map SList.count_ }

def onLists : QueueObject Lists :=
  { step := Lists.step, size := fun A j => A.lists[j]?.map List.length }

variable {σ : Type} (o : QueueObject σ)

def objectOf : Result → Procedure σ Nat
  | .object i => pure i
  | _ => stuck

def boolOf : Result → Procedure σ Bool
  | .bool b => pure b
  | _ => stuck

def pop (op : Operation) : Procedure σ Nat := do
  let r ← call o.step op
  objectOf r

/-- `if (task) push = runnableQueue_.eraseWithoutLock(task, false)` -/
def eraseTask (q : Nat) : Option Nat → Procedure σ Bool
  | none => pure false
  | some t => do
      let r ← call o.step (.erase q t false)
      boolOf r

/-- `if (push) runnableQueue_.pushWithoutLock(task)` -/
def pushTask (q : Nat) : Bool → Option Nat → Procedure σ Unit
  | false, _ => pure ()
  | true, none => stuck
  | true, some t => do
      let _ ← call o.step (.push q t)
      pure ()

/-- `Steal` from its critical section on `runnableQueue_` on; `pop` is what it calls there. -/
def stealRunnable (x : ProcesserLinks) (popTasks : Operation) (slist : Nat) : Procedure σ Nat := do
  let pushRunningTask ← o.eraseTask x.runnableQueue_ x.runningTask_
  let pushNextTask ← o.eraseTask x.runnableQueue_ x.nextTask_
  let slist2 ← o.pop popTasks
  o.pushTask x.runnableQueue_ pushRunningTask x.runningTask_
  o.pushTask x.runnableQueue_ pushNextTask x.nextTask_
  let _ ← call o.step (.append slist2 slist)
  pure slist2

def steal (x : ProcesserLinks) (n : Nat) : Procedure σ Nat :=
  if n > 0 then do
    let slist ← o.pop (.popBack x.newQueue_ (n % 2 ^ 32))
    let size ← read (o.size · slist)
    if size ≥ n then pure slist
    else o.stealRunnable x (.popBack x.runnableQueue_ ((n - size) % 2 ^ 32)) slist
  else do
    let slist ← o.pop (.popAll x.newQueue_)
    o.stealRunnable x (.popAll x.runnableQueue_) slist

end QueueObject

section Refinement

open QueueObject

theorem refines_step {op : Operation} :
    Refines Represents (call onHeap.step op) (call onLists.step op) :=
  refines_call (fun _ _ _ _ hr h => hr.step h) op

theorem refines_pop (op : Operation) : Refines Represents (onHeap.pop op) (onLists.pop op) := by
  apply refines_bind refines_step
  intro r
  cases r with
  | object i => exact refines_pure i
  | nothing | count _ | pointer _ | bool _ => exact refines_stuck

theorem refines_eraseTask (q : Nat) (t : Option Nat) :
    Refines Represents (onHeap.eraseTask q t) (onLists.eraseTask q t) := by
  cases t with
  | none => exact refines_pure false
  | some t =>
      apply refines_bind refines_step
      intro r
      cases r with
      | bool b => exact refines_pure b
      | nothing | count _ | pointer _ | object _ => exact refines_stuck

theorem refines_pushTask (q : Nat) (push : Bool) (t : Option Nat) :
    Refines Represents (onHeap.pushTask q push t) (onLists.pushTask q push t) := by
  cases push with
  | false => exact refines_pure ()
  | true =>
      cases t with
      | none => exact refines_stuck
      | some t => exact refines_bind refines_step fun _ => refines_pure ()

theorem refines_stealRunnable (x : ProcesserLinks) (popTasks : Operation) (slist : Nat) :
    Refines Represents (onHeap.stealRunnable x popTasks slist)
      (onLists.stealRunnable x popTasks slist) := by
  apply refines_bind (refines_eraseTask _ _)
  intro pushRunningTask
  apply refines_bind (refines_eraseTask _ _)
  intro pushNextTask
  apply refines_bind (refines_pop _)
  intro slist2
  apply refines_bind (refines_pushTask _ _ _)
  intro _
  apply refines_bind (refines_pushTask _ _ _)
  intro _
  apply refines_bind refines_step
  intro _
  exact refines_pure slist2

theorem refines_size (slist : Nat) :
    Refines Represents (read (onHeap.size · slist)) (read (onLists.size · slist)) := by
  apply refines_read
  intro s A n hr hn
  obtain ⟨l, hl, rfl⟩ := Option.map_eq_some_iff.mp hn
  exact hr.map_list hl SList.count_

/-- `Steal` on the heap does what it does on the lists. -/
theorem refines_steal (x : ProcesserLinks) (n : Nat) :
    Refines Represents (onHeap.steal x n) (onLists.steal x n) := by
  apply refines_ite
  · apply refines_bind (refines_pop _)
    intro slist
    apply refines_bind (refines_size slist)
    intro size
    apply refines_ite
    · exact refines_pure slist
    · exact refines_stealRunnable _ _ _
  · apply refines_bind (refines_pop _)
    intro slist
    exact refines_stealRunnable _ _ _

end Refinement

section Members

variable {A : Lists} {l : List Nat} {q : Nat}

theorem members_setQueue (hq : A.queues[q]? = some l) :
    ∃ rest, A.members ~ l ++ rest ∧ ∀ l', (A.setQueue q l').members ~ l' ++ rest := by
  obtain ⟨rest, hperm, hset⟩ := perm_set hq
  refine ⟨rest.flatten ++ A.lists.flatten, ?_, fun l' => ?_⟩
  · rw [← List.append_assoc]
    exact hperm.flatten.append_right _
  · rw [← List.append_assoc]
    exact (hset l').flatten.append_right _

theorem members_addList (A : Lists) (l : List Nat) : (A.addList l).1.members ~ A.members ++ l := by
  unfold Lists.addList Lists.members
  simp

end Members

/-- The lists during a call of `Steal`, which has started with `A`: the queues of the
Processer are `l` and `m`, `lists` have been made, and the tasks of `out` are in no list. -/
structure Stealing (A B : Lists) (x : ProcesserLinks) (l m : List Nat) (lists : List (List Nat))
    (out : List Nat) : Prop where
  queues : B.queues = (A.queues.set x.runnableQueue_ l).set x.newQueue_ m
  lists : B.lists = A.lists ++ lists
  deleted : B.deleted = A.deleted
  perm : A.members ~ out ++ B.members

structure Distinct (A : Lists) (x : ProcesserLinks) : Prop where
  ne : x.runnableQueue_ ≠ x.newQueue_
  runnable : x.runnableQueue_ < A.queues.length
  new : x.newQueue_ < A.queues.length
  nodup : A.members.Nodup
  unused : ∀ t ∈ A.deleted, t ∉ A.members

namespace Stealing

open QueueObject

variable {A B : Lists} {x : ProcesserLinks} {l m : List Nat} {lists : List (List Nat)}
  {out ts : List Nat} {t : Nat} {hook : Option Nat}

section Queues

variable (h : Stealing A B x l m lists out) (hA : Distinct A x)

include h hA

theorem runnable : B.queues[x.runnableQueue_]? = some l := by
  rw [h.queues, List.getElem?_set_ne (Ne.symm hA.ne), List.getElem?_set_self hA.runnable]

theorem new : B.queues[x.newQueue_]? = some m := by
  rw [h.queues, List.getElem?_set_self]
  rw [List.length_set]
  exact hA.new

theorem set_runnable (l' : List Nat) : (B.setQueue x.runnableQueue_ l').queues =
    (A.queues.set x.runnableQueue_ l').set x.newQueue_ m := by
  show B.queues.set _ _ = _
  rw [h.queues, List.set_comm _ _ hA.ne.symm, List.set_set]

omit hA in
theorem set_new (m' : List Nat) : (B.setQueue x.newQueue_ m').queues =
    (A.queues.set x.runnableQueue_ l).set x.newQueue_ m' := by
  show B.queues.set _ _ = _
  rw [h.queues, List.set_set]

theorem fresh (ht : t ∈ out) : B.fresh t = true := by
  have hnodup := h.perm.nodup_iff.mp hA.nodup
  rw [fresh_iff]
  constructor
  · intro hmem
    exact (List.nodup_append.mp hnodup).2.2 t ht t hmem rfl
  · intro hmem
    rw [h.deleted] at hmem
    exact hA.unused t hmem (h.perm.mem_iff.mpr (List.mem_append_left _ ht))

theorem nodup : l.Nodup := by
  obtain ⟨rest, hmembers, -⟩ := members_setQueue (h.runnable hA)
  have hnodup := h.perm.nodup_iff.mp hA.nodup
  exact (List.nodup_append.mp (hmembers.nodup_iff.mp (List.nodup_append.mp hnodup).2.1)).1

theorem eraseTask (hhook : ∀ t, hook = some t → t ∈ l ∨ B.fresh t = true) :
    ∃ C, onLists.eraseTask x.runnableQueue_ hook B = some ((Processer.pin l hook).2, C) ∧
      Stealing A C x (Processer.pin l hook).1 m lists
        (out ++ if (Processer.pin l hook).2 then hook.toList else []) := by
  cases hook with
  | none =>
      refine ⟨B, rfl, ?_⟩
      simpa [Processer.pin] using h
  | some t =>
      have hrun := h.runnable hA
      show ∃ C, _ = some ((TaskQueue.eraseWithoutLock l t).2, C) ∧ Stealing A C x
        (TaskQueue.eraseWithoutLock l t).1 m lists
          (out ++ if (TaskQueue.eraseWithoutLock l t).2 then [t] else [])
      by_cases ht : t ∈ l
      · rw [TaskQueue.erase_of_mem ht]
        have hstep : onLists.step B (.erase x.runnableQueue_ t false) =
            some ((B.setQueue x.runnableQueue_ (l.erase t)).setCheck t none, .bool true) := by
          show (B.queues[x.runnableQueue_]?.bind _) = _
          rw [hrun]
          simp [ht]
        refine ⟨_, bind_run (call_run hstep) pure_run, h.set_runnable hA _, h.lists, h.deleted, ?_⟩
        obtain ⟨rest, hmembers, hset⟩ := members_setQueue hrun
        calc A.members
            ~ out ++ B.members := h.perm
          _ ~ out ++ (l ++ rest) := hmembers.append_left _
          _ ~ out ++ (t :: l.erase t ++ rest) :=
              ((List.perm_cons_erase ht).append_right _).append_left _
          _ ~ out ++ [t] ++ (l.erase t ++ rest) := by simp
          _ ~ out ++ [t] ++ (B.setQueue x.runnableQueue_ (l.erase t)).members :=
              (hset _).symm.append_left _
      · rw [TaskQueue.erase_of_not_mem ht]
        have hfresh := (hhook t rfl).resolve_left ht
        have hstep : onLists.step B (.erase x.runnableQueue_ t false) = some (B, .bool false) := by
          show (B.queues[x.runnableQueue_]?.bind _) = _
          rw [hrun]
          simp [ht, hfresh]
        refine ⟨B, bind_run (call_run hstep) pure_run, ?_⟩
        simpa using h

end Queues

theorem pushTask {push : Bool} (h : Stealing A B x l m lists ((if push then hook.toList else []) ++ out))
    (hA : Distinct A x) (hhook : push = true → hook ≠ none) :
    ∃ C, onLists.pushTask x.runnableQueue_ push hook B = some ((), C) ∧
      Stealing A C x (l ++ if push then hook.toList else []) m lists out := by
  cases push with
  | false =>
      refine ⟨B, rfl, ?_⟩
      simpa using h
  | true =>
      cases hook with
      | none => exact absurd rfl (hhook rfl)
      | some t =>
          have hrun := h.runnable hA
          have hfresh := h.fresh hA (t := t) (by simp)
          have hstep : onLists.step B (.push x.runnableQueue_ t) =
              some ((B.setQueue x.runnableQueue_ (l ++ [t])).setCheck t (some x.runnableQueue_),
                .count (l.length + 1)) := by
            show (B.queues[x.runnableQueue_]?.bind _) = _
            rw [hrun]
            simp [hfresh]
          refine ⟨_, bind_run (call_run hstep) pure_run, h.set_runnable hA _, h.lists, h.deleted, ?_⟩
          obtain ⟨rest, hmembers, hset⟩ := members_setQueue hrun
          calc A.members
              ~ [t] ++ out ++ B.members := h.perm
            _ ~ [t] ++ out ++ (l ++ rest) := hmembers.append_left _
            _ ~ out ++ (l ++ [t] ++ rest) := by
                simp only [List.perm_iff_count, List.count_append]
                omega
            _ ~ out ++ (B.setQueue x.runnableQueue_ (l ++ [t])).members :=
                (hset _).symm.append_left _

theorem pop {op : Operation} {q : Nat} {l₀ l' s l₁ m₁ : List Nat}
    (h : Stealing A B x l m lists out) (hq : B.queues[q]? = some l₀) (hsplit : l' ++ s = l₀)
    (hop : B.step op = some ((B.setQueue q l').addList s))
    (hqueues : (B.setQueue q l').queues = (A.queues.set x.runnableQueue_ l₁).set x.newQueue_ m₁) :
    ∃ C, onLists.pop op B = some (B.lists.length, C) ∧
      Stealing A C x l₁ m₁ (lists ++ [s]) out := by
  have hstep : onLists.step B op = some ((B.setQueue q l').addList s) := hop
  refine ⟨_, bind_run (call_run hstep) pure_run, hqueues, ?_, h.deleted, ?_⟩
  · show B.lists ++ [s] = _
    rw [h.lists, List.append_assoc]
  · obtain ⟨rest, hmembers, hset⟩ := members_setQueue hq
    calc A.members
        ~ out ++ B.members := h.perm
      _ ~ out ++ (l' ++ s ++ rest) := by
          rw [hsplit]
          exact hmembers.append_left _
      _ ~ out ++ (l' ++ rest ++ s) := by
          simp only [List.perm_iff_count, List.count_append]
          omega
      _ ~ out ++ ((B.setQueue q l').members ++ s) :=
          ((hset l').symm.append_right _).append_left _
      _ ~ out ++ ((B.setQueue q l').addList s).1.members :=
          (members_addList _ _).symm.append_left _

theorem popBack {q n : Nat} {l₀ : List Nat} (hq : B.queues[q]? = some l₀) (hn : n ≠ 0) :
    B.step (.popBack q n) = some ((B.setQueue q (TaskQueue.popBackWithoutLock l₀ n).1).addList
      (TaskQueue.popBackWithoutLock l₀ n).2) := by
  have hmax : max 1 n = n := by omega
  have hpop : TaskQueue.popBackWithoutLock l₀ n = (l₀.take (l₀.length - n), l₀.drop (l₀.length - n)) := by
    rw [TaskQueue.popBackWithoutLock, List.splitAt_eq, hmax]
  show (B.queues[q]?.bind _) = _
  rw [hq, hpop]
  simp [hn]

theorem popAll {q : Nat} {l₀ : List Nat} (hq : B.queues[q]? = some l₀) :
    B.step (.popAll q) = some ((B.setQueue q (TaskQueue.popAllWithoutLock l₀).1).addList
      (TaskQueue.popAllWithoutLock l₀).2) := by
  show (B.queues[q]?.map _) = _
  rw [hq]
  rfl

end Stealing

def ProcesserLinks.processer (x : ProcesserLinks) (l m : List Nat) : Processer :=
  { Processer.make with
    runningTask_ := x.runningTask_
    nextTask_ := x.nextTask_
    runnableQueue_ := l
    newQueue_ := m }

/-- What `Steal` leaves of the lists `A`: the queues of the Processer `p`, and at the end of
the lists its two local ones. -/
structure StolenLists (A C : Lists) (x : ProcesserLinks) (p : Processer)
    (lists : List (List Nat)) : Prop where
  queues : C.queues = (A.queues.set x.runnableQueue_ p.runnableQueue_).set x.newQueue_ p.newQueue_
  lists : C.lists = A.lists ++ lists
  deleted : C.deleted = A.deleted

section Runs

open QueueObject

variable {A B : Lists} {x : ProcesserLinks} {l m slist : List Nat} {n : Nat}

theorem pin_ne_none {q : TaskQueue} {hook : Option TaskPtr} (h : (Processer.pin q hook).2 = true) :
    hook ≠ none := by
  rintro rfl
  cases h

/-- `slist2.append(std::move(slist))` of the two local lists. -/
theorem append_run {s : List Nat} (hlists : B.lists = A.lists ++ [slist, s]) :
    ∃ C, B.step (.append (A.lists.length + 1) A.lists.length) = some (C, .nothing) ∧
      C.queues = B.queues ∧ C.lists = A.lists ++ [[], s ++ slist] ∧ C.deleted = B.deleted := by
  have hi : B.lists[A.lists.length + 1]? = some s := by
    rw [hlists, List.getElem?_append_right (Nat.le_add_right _ 1), Nat.add_sub_cancel_left]
    rfl
  have hj : B.lists[A.lists.length]? = some slist := by
    rw [hlists, List.getElem?_append_right (Nat.le_refl _), Nat.sub_self]
    rfl
  refine ⟨(B.setList (A.lists.length + 1) (s ++ slist)).setList A.lists.length [], ?_, rfl, ?_, rfl⟩
  · show (B.lists[A.lists.length + 1]?.bind _) = _
    rw [hi, Option.bind_some, hj]
    simp
  · show (B.lists.set _ _).set _ _ = _
    rw [hlists, List.set_append_right _ _ (Nat.le_add_right _ 1),
      List.set_append_right _ _ (Nat.le_refl _), Nat.add_sub_cancel_left, Nat.sub_self]
    rfl

theorem stealRunnable_run (size : Nat) (popTasks : Operation) (hA : Distinct A x)
    (h : Stealing A B x l m [slist] [])
    (hrunning : ∀ t, x.runningTask_ = some t → t ∈ l ∨ B.fresh t = true)
    (hnext : ∀ t, x.nextTask_ = some t → t ∈ l)
    (hpop : ∀ (C : Lists) (q : List Nat), C.queues[x.runnableQueue_]? = some q →
      let r := if n > 0 then TaskQueue.popBackWithoutLock q ((n - size) % 2 ^ 32)
        else TaskQueue.popAllWithoutLock q
      C.step popTasks = some ((C.setQueue x.runnableQueue_ r.1).addList r.2)) :
    ∃ C, onLists.stealRunnable x popTasks A.lists.length B = some (A.lists.length + 1, C) ∧
      StolenLists A C x ((x.processer l m).stealRunnable n size).1
        [[], ((x.processer l m).stealRunnable n size).2 ++ slist] := by
  obtain ⟨B₁, hrun₁, h₁⟩ := h.eraseTask hA hrunning
  have hnext' : ∀ t, x.nextTask_ = some t →
      t ∈ (Processer.pin l x.runningTask_).1 ∨ B₁.fresh t = true := by
    intro t ht
    by_cases hsame : x.runningTask_ = some t
    · right
      apply h₁.fresh hA
      rw [hsame, Processer.pin_of_mem (hnext t ht)]
      simp
    · exact .inl (Processer.mem_pin_of_ne (hnext t ht) hsame)
  obtain ⟨B₂, hrun₂, h₂⟩ := h₁.eraseTask hA hnext'
  generalize hq₁ : Processer.pin l x.runningTask_ = q₁ at *
  generalize hq₂ : Processer.pin q₁.1 x.nextTask_ = q₂ at *
  have hop := hpop B₂ q₂.1 (h₂.runnable hA)
  generalize hq₃ : (if n > 0 then TaskQueue.popBackWithoutLock q₂.1 ((n - size) % 2 ^ 32)
    else TaskQueue.popAllWithoutLock q₂.1) = q₃ at hop
  have hsplit : q₃.1 ++ q₃.2 = q₂.1 := by
    rw [← hq₃]
    split
    · exact TaskQueue.popBack_append
    · rfl
  obtain ⟨B₃, hrun₃, h₃⟩ := h₂.pop (h₂.runnable hA) hsplit hop (h₂.set_runnable hA _)
  have hlength : B₂.lists.length = A.lists.length + 1 := by
    rw [h₂.lists, List.length_append]
    rfl
  rw [List.nil_append] at h₃
  obtain ⟨B₄, hrun₄, h₄⟩ := h₃.pushTask hA fun hpush => pin_ne_none (hq₁ ▸ hpush)
  rw [← List.append_nil (if q₂.2 then x.nextTask_.toList else [])] at h₄
  obtain ⟨B₅, hrun₅, h₅⟩ := h₄.pushTask hA fun hpush => pin_ne_none (hq₂ ▸ hpush)
  obtain ⟨C, hstep, hqueues, hlists, hdeleted⟩ := append_run h₅.lists
  have hsteal : (x.processer l m).stealRunnable n size =
      ({ x.processer l m with
        runnableQueue_ := q₃.1 ++ (if q₁.2 then x.runningTask_.toList else []) ++
          if q₂.2 then x.nextTask_.toList else [] }, q₃.2) := by
    unfold Processer.stealRunnable TaskQueue.pushWithoutLock
    simp only [ProcesserLinks.processer, hq₁, hq₂, hq₃]
    split <;> split <;> simp
  rw [hlength] at hrun₃
  refine ⟨C, ?_, ?_⟩
  · apply bind_run hrun₁
    apply bind_run hrun₂
    apply bind_run hrun₃
    apply bind_run hrun₄
    apply bind_run hrun₅
    exact bind_run (call_run hstep) pure_run
  · rw [hsteal]
    exact ⟨hqueues.trans h₅.queues, hlists, hdeleted.trans h₅.deleted⟩

theorem Stealing.fresh_of_fresh {lists : List (List Nat)} {t : Nat}
    (h : Stealing A B x l m lists []) (ht : A.fresh t = true) : B.fresh t = true := by
  have hmem : t ∈ A.members ↔ t ∈ B.members := h.perm.mem_iff
  rw [fresh_iff] at ht ⊢
  rw [h.deleted, ← hmem]
  exact ht

theorem steal_run (hA : Distinct A x) (hl : A.queues[x.runnableQueue_]? = some l)
    (hm : A.queues[x.newQueue_]? = some m)
    (hrunning : ∀ t, x.runningTask_ = some t → t ∈ l ∨ A.fresh t = true)
    (hnext : ∀ t, x.nextTask_ = some t → t ∈ l) (hn : n < 2 ^ 32) :
    ∃ C pre, onLists.steal x n A = some (A.lists.length + pre.length, C) ∧
      StolenLists A C x ((x.processer l m).steal n).1 (pre ++ [((x.processer l m).steal n).2]) ∧
      ∀ l ∈ pre, l = [] := by
  have hstart : Stealing A A x l m [] [] := by
    refine ⟨?_, (List.append_nil _).symm, rfl, .refl _⟩
    have hrun : A.queues.set x.runnableQueue_ l = A.queues :=
      congrArg Lists.queues (setQueue_self hl)
    have hnew : A.queues.set x.newQueue_ m = A.queues := congrArg Lists.queues (setQueue_self hm)
    rw [hrun, hnew]
  by_cases hpos : 0 < n
  · have hmod : n % 2 ^ 32 = n := Nat.mod_eq_of_lt hn
    have hop := Stealing.popBack (n := n % 2 ^ 32) hm (by omega)
    generalize hr : TaskQueue.popBackWithoutLock m (n % 2 ^ 32) = r at hop
    have hsplit : r.1 ++ r.2 = m := by
      rw [← hr]
      exact TaskQueue.popBack_append
    obtain ⟨B, hrun, h⟩ := hstart.pop hm hsplit hop (hstart.set_new _)
    have hsize : read (onLists.size · A.lists.length) B = some (r.2.length, B) := by
      apply read_run
      show B.lists[A.lists.length]?.map List.length = _
      rw [h.lists]
      simp
    have hnew : (x.processer l m).stealNew n = (x.processer l r.1, r.2) := by
      unfold Processer.stealNew
      simp only [if_pos hpos, ProcesserLinks.processer, hr]
    unfold QueueObject.steal Processer.steal
    rw [if_pos hpos, hnew]
    by_cases hle : r.2.length ≥ n
    · refine ⟨B, [], ?_, ?_, by simp⟩
      · apply bind_run hrun
        apply bind_run hsize
        rw [if_pos hle]
        rfl
      · simp only [hpos, hle, and_self, if_true]
        exact ⟨h.queues, h.lists, h.deleted⟩
    · obtain ⟨C, hrest, hC⟩ := stealRunnable_run (n := n) r.2.length
        (.popBack x.runnableQueue_ ((n - r.2.length) % 2 ^ 32)) hA h
        (fun t ht => (hrunning t ht).imp_right h.fresh_of_fresh) hnext (by
          intro C q hq
          simp only [if_pos hpos]
          have hlt : n - r.2.length < 2 ^ 32 := by omega
          exact Stealing.popBack hq (by rw [Nat.mod_eq_of_lt hlt]; omega))
      refine ⟨C, [[]], ?_, ?_, by simp⟩
      · apply bind_run hrun
        apply bind_run hsize
        rw [if_neg hle]
        exact hrest
      · simp only [hle, and_false, if_false]
        exact hC
  · obtain rfl : n = 0 := by omega
    have hop := Stealing.popAll hm
    obtain ⟨B, hrun, h⟩ := hstart.pop hm (show ([] : List Nat) ++ m = m from rfl) hop
      (hstart.set_new _)
    obtain ⟨C, hrest, hC⟩ := stealRunnable_run (n := 0) m.length (.popAll x.runnableQueue_) hA h
      (fun t ht => (hrunning t ht).imp_right h.fresh_of_fresh) hnext
      (fun C q hq => Stealing.popAll hq)
    refine ⟨C, [[]], bind_run hrun hrest, ?_, by simp⟩
    exact hC

end Runs

section Contract

open QueueObject

variable {s : Heap} {A : Lists} {x : ProcesserLinks} {l m : List Nat} {n : Nat}

/-- What `Steal(n)` does to a heap of the lists `A`, where the queues of the Processer are `l`
and `m`: it returns the list `i` and leaves the heap `s'` of the lists `C`. -/
structure StealContract (A : Lists) (x : ProcesserLinks) (l m : List Nat) (n i : Nat)
    (s' : Heap) (C : Lists) : Prop where
  steals : ∃ r, (x.processer l m).Steals n r ∧ C.lists[i]? = some r.2 ∧
    C.queues = (A.queues.set x.runnableQueue_ r.1.runnableQueue_).set x.newQueue_ r.1.newQueue_
  links : HoldsLists s' C
  others : ∀ j < A.lists.length, C.lists[j]? = A.lists[j]?
  deleted : C.deleted = A.deleted

theorem distinct_of_represents (hr : Represents s A) (hl : A.queues[x.runnableQueue_]? = some l)
    (hm : A.queues[x.newQueue_]? = some m) (hne : x.runnableQueue_ ≠ x.newQueue_) :
    Distinct A x where
  ne := hne
  runnable := (List.getElem?_eq_some_iff.mp hl).1
  new := (List.getElem?_eq_some_iff.mp hm).1
  nodup := hr.nodup_members
  unused := hr.unused

theorem Distinct.disjoint (hA : Distinct A x) (hl : A.queues[x.runnableQueue_]? = some l)
    (hm : A.queues[x.newQueue_]? = some m) : l.Nodup ∧ m.Nodup ∧ ∀ t ∈ m, t ∉ l := by
  obtain ⟨rest, hperm, -⟩ := perm_set_set hA.ne hl hm
  have hnodup : A.queues.flatten.Nodup := (List.nodup_append.mp hA.nodup).1
  rw [hperm.flatten.nodup_iff, List.flatten_cons, List.flatten_cons, List.nodup_append] at hnodup
  obtain ⟨hl, hrest, hdisjoint⟩ := hnodup
  refine ⟨hl, (List.nodup_append.mp hrest).1, fun t hm hl => ?_⟩
  exact hdisjoint t hl t (List.mem_append_left _ hm) rfl

theorem steal_contract (hr : Represents s A) (hl : A.queues[x.runnableQueue_]? = some l)
    (hm : A.queues[x.newQueue_]? = some m) (hne : x.runnableQueue_ ≠ x.newQueue_)
    (hrunning : ∀ t, x.runningTask_ = some t → t ∈ l ∨ A.fresh t = true)
    (hnext : ∀ t, x.nextTask_ = some t → t ∈ l) (hn : n < 2 ^ 32) :
    ∃ i s' C, onHeap.steal x n s = some (i, s') ∧ Represents s' C ∧
      StealContract A x l m n i s' C := by
  have hA := distinct_of_represents hr hl hm hne
  obtain ⟨hrun, hnew, hdisjoint⟩ := hA.disjoint hl hm
  obtain ⟨C, pre, hsteal, hC, -⟩ := steal_run hA hl hm hrunning hnext hn
  obtain ⟨s', hs', hr'⟩ := refines_steal x n s A _ C hr hsteal
  refine ⟨_, s', C, hs', hr', ⟨_, ?_, ?_, hC.queues⟩, hr'.holdsLists, ?_, hC.deleted⟩
  · refine Processer.steals hrun hnew hdisjoint ?_ ?_ hn
    · intro t ht hmem
      rcases hrunning t ht with hin | hfresh
      · exact hdisjoint t hmem hin
      · exact (fresh_iff.mp hfresh).1 (mem_members_queue hm hmem)
    · intro t ht hmem
      exact hdisjoint t hmem (hnext t ht)
  · rw [hC.lists, List.getElem?_append_right (Nat.le_add_right _ _), Nat.add_sub_cancel_left,
      List.getElem?_append_right (Nat.le_refl _), Nat.sub_self]
    rfl
  · intro j hj
    rw [hC.lists, List.getElem?_append_left hj]

/-- Five tasks: `runningTask_` is the last one of `runnableQueue_`, and `nextTask_` is before
it. -/
def runningAtTail : List Operation :=
  [.newQueue, .newQueue, .push 0 1, .push 0 2, .push 0 3, .push 1 4, .push 1 5]

theorem steal_contract_runningAtTail : ∃ s A, Represents s A ∧ A.queues = [[1, 2, 3], [4, 5]] ∧
    ∃ i s' C, onHeap.steal ⟨0, 1, some 3, some 2⟩ 4 s = some (i, s') ∧ Represents s' C ∧
      StealContract A ⟨0, 1, some 3, some 2⟩ [1, 2, 3] [4, 5] 4 i s' C := by
  have hlists : Machine.run (Machine.answering Lists.step) Machine.Free (Lists.make, [])
      runningAtTail = some (_, _) := rfl
  obtain ⟨s, -, hr⟩ := Machine.run_answers (fun _ _ _ _ hr h => hr.step h) represents_make hlists
  refine ⟨s, _, hr, rfl, steal_contract hr rfl rfl (by decide) ?_ ?_ (by decide)⟩
  · rintro t ⟨⟩
    exact .inl (by decide)
  · rintro t ⟨⟩
    decide

end Contract

end CppGo.Scheduling
