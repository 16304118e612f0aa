import CppGo.Scheduler.LinkedScheduler

/-!
# What the calls on the queues do

A heap that stores the queues `Q` and the lists `O`.  Each call on it returns what the lists
say, keeps every assertion of `TSQueue` and `SList`, and stores the new lists.
-/

namespace CppGo.Scheduling

open CppGo.Lib CppGo.Lib.Procedure CppGo.Common

open scoped List

theorem after_eq (t : Nat) (l : List Nat) : Lists.after t l = TaskQueue.nextWithoutLock l t := by
  induction l with
  | nil => rfl
  | cons a l ih =>
      unfold Lists.after TaskQueue.nextWithoutLock
      rw [ih]

theorem next_of_not_mem {t : TaskPtr} {q : TaskQueue} (ht : t ∉ q) : q.nextWithoutLock t = none := by
  induction q with
  | nil => rfl
  | cons a q ih =>
      rw [List.mem_cons, not_or] at ht
      unfold TaskQueue.nextWithoutLock
      rw [if_neg (Ne.symm ht.1), ih ht.2]

namespace LinkedScheduler

structure Stores (h : Heap) (Q O : List (List Nat)) : Prop where
  represents : ∃ A, Represents h A ∧ A.queues = Q ∧ A.lists = O ∧ A.deleted = []

variable {h : Heap} {A : Lists} {Q O : List (List Nat)} {q j i t n : Nat} {l m : List Nat}

section Calls

theorem ensures_step {op : Operation} {r : Lists × Result} (hr : Represents h A)
    (hs : A.step op = some r) :
    Ensures h (call Heap.step op) fun o h' => o = r.2 ∧ Represents h' r.1 := by
  obtain ⟨r', hr', hrep, heq⟩ := hr.step hs
  exact ⟨r'.2, r'.1, call_run hr', heq, hrep⟩

theorem ensures_operation {op : Operation} {r : Lists × Result} (hr : Represents h A)
    (hs : A.step op = some r) (hdeleted : r.1.deleted = []) :
    Ensures h (operation op) fun _ h' => Stores h' r.1.queues r.1.lists := by
  apply (ensures_step hr hs).bind
  rintro o h' ⟨-, hr'⟩
  exact ensures_pure ⟨_, hr', rfl, rfl, hdeleted⟩

theorem fresh_of_out (hdeleted : A.deleted = []) (hout : t ∉ A.queues.flatten ++ A.lists.flatten) :
    A.fresh t = true := by
  rw [fresh_iff, hdeleted]
  exact ⟨hout, List.not_mem_nil⟩

theorem Stores.push (h' : Stores h Q O) (hq : Q[q]? = some l) (ht : t ∉ Q.flatten ++ O.flatten) :
    Ensures h (operation (.push q t)) fun _ h' => Stores h' (Q.set q (l ++ [t])) O := by
  obtain ⟨A, hr, rfl, rfl, hdeleted⟩ := h'
  have hs : A.step (.push q t) =
      some ((A.setQueue q (l ++ [t])).setCheck t (some q), .count (l.length + 1)) := by
    simp [Lists.step, hq, fresh_of_out hdeleted ht]
  exact ensures_operation hr hs hdeleted

theorem Stores.pushAll (h' : Stores h Q O) (hq : Q[q]? = some l) (hj : O[j]? = some m) :
    Ensures h (operation (.pushAll q j)) fun _ h' => Stores h' (Q.set q (l ++ m)) (O.set j []) := by
  obtain ⟨A, hr, rfl, rfl, hdeleted⟩ := h'
  have hs : A.step (.pushAll q j) = some ((A.setQueue q (l ++ m)).setList j [], .nothing) := by
    simp [Lists.step, hq, hj]
  exact ensures_operation hr hs hdeleted

theorem Stores.append (h' : Stores h Q O) (hij : i ≠ j) (hi : O[i]? = some l)
    (hj : O[j]? = some m) :
    Ensures h (operation (.append i j)) fun _ h' => Stores h' Q ((O.set i (l ++ m)).set j []) := by
  obtain ⟨A, hr, rfl, rfl, hdeleted⟩ := h'
  have hs : A.step (.append i j) = some ((A.setList i (l ++ m)).setList j [], .nothing) := by
    simp [Lists.step, hi, hj, hij]
  exact ensures_operation hr hs hdeleted

theorem Stores.newQueue (h' : Stores h Q O) :
    Ensures h (operation .newQueue) fun _ h' => Stores h' (Q ++ [[]]) O := by
  obtain ⟨A, hr, rfl, rfl, hdeleted⟩ := h'
  have hs : A.step .newQueue =
      some ({ A with queues := A.queues ++ [[]] }, .object A.queues.length) := rfl
  exact ensures_operation hr hs hdeleted

theorem stores_read {o : Option Nat} (hr : Represents h A) {op : Operation}
    (hs : A.step op = some (A.read q o)) (hdeleted : A.deleted = []) :
    Ensures h (do let r ← call Heap.step op; pointerOf r)
      fun a h' => a = o ∧ Stores h' A.queues A.lists := by
  apply (ensures_step hr hs).bind
  rintro _ h' ⟨rfl, hr'⟩
  cases o with
  | none => exact ensures_pure ⟨rfl, _, hr', rfl, rfl, hdeleted⟩
  | some t => exact ensures_pure ⟨rfl, _, hr', rfl, rfl, hdeleted⟩

theorem Stores.front (h' : Stores h Q O) (hq : Q[q]? = some l) :
    Ensures h (front q) fun o h' => o = l.head? ∧ Stores h' Q O := by
  obtain ⟨A, hr, rfl, rfl, hdeleted⟩ := h'
  apply stores_read hr _ hdeleted (q := q)
  simp [Lists.step, hq]

theorem Stores.next (h' : Stores h Q O) (hq : Q[q]? = some l)
    (ht : t ∈ l ∨ t ∉ Q.flatten ++ O.flatten) :
    Ensures h (next q t) fun o h' => o = TaskQueue.nextWithoutLock l t ∧ Stores h' Q O := by
  obtain ⟨A, hr, rfl, rfl, hdeleted⟩ := h'
  apply stores_read hr _ hdeleted (q := q)
  by_cases hmem : t ∈ l
  · simp [Lists.step, hq, hmem, after_eq]
  · have hfresh := fresh_of_out hdeleted (ht.resolve_left hmem)
    simp [Lists.step, hq, hmem, hfresh, next_of_not_mem hmem, Lists.read]

theorem Stores.size (h' : Stores h Q O) (hq : Q[q]? = some l) :
    Ensures h (size q) fun c h' => c = l.length ∧ Stores h' Q O := by
  obtain ⟨A, hr, rfl, rfl, hdeleted⟩ := h'
  have hs : A.step (.size q) = some (A, .count l.length) := by
    simp [Lists.step, hq]
  apply (ensures_step hr hs).bind
  rintro _ h' ⟨rfl, hr'⟩
  exact ensures_pure ⟨rfl, A, hr', rfl, rfl, hdeleted⟩

end Calls

section Made

theorem ensures_makeList {op : Operation} {B : Lists} (hr : Represents h A)
    (hs : A.step op = some (B.addList l)) (hlength : B.lists.length = A.lists.length)
    (hdeleted : B.deleted = []) :
    Ensures h (makeList op) fun j h' =>
      j = A.lists.length ∧ Stores h' B.queues (B.lists ++ [l]) := by
  apply (ensures_step hr hs).bind
  rintro _ h' ⟨rfl, hr'⟩
  exact ensures_pure ⟨hlength, _, hr', rfl, rfl, hdeleted⟩

theorem Stores.popAll (h' : Stores h Q O) (hq : Q[q]? = some l) :
    Ensures h (makeList (.popAll q)) fun j h' =>
      j = O.length ∧ Stores h' (Q.set q []) (O ++ [l]) := by
  obtain ⟨A, hr, rfl, rfl, hdeleted⟩ := h'
  have hs : A.step (.popAll q) = some ((A.setQueue q []).addList l) := by
    simp [Lists.step, hq]
  exact ensures_makeList hr hs rfl hdeleted

theorem Stores.popBack (h' : Stores h Q O) (hq : Q[q]? = some l) (hn : n ≠ 0) :
    Ensures h (makeList (.popBack q n)) fun j h' => j = O.length ∧
      Stores h' (Q.set q (TaskQueue.popBackWithoutLock l n).1)
        (O ++ [(TaskQueue.popBackWithoutLock l n).2]) := by
  obtain ⟨A, hr, rfl, rfl, hdeleted⟩ := h'
  exact ensures_makeList hr (Stealing.popBack hq hn) rfl hdeleted

theorem Stores.newSList (h' : Stores h Q O) :
    Ensures h (makeList .newSList) fun j h' => j = O.length ∧ Stores h' Q (O ++ [[]]) := by
  obtain ⟨A, hr, rfl, rfl, hdeleted⟩ := h'
  exact ensures_makeList (B := A) hr rfl rfl hdeleted

theorem Stores.cut (h' : Stores h Q O) (hi : O[i]? = some l) :
    Ensures h (makeList (.cut i n)) fun j h' => j = O.length ∧
      Stores h' Q (O.set i (TaskList.cut l n).2 ++ [(TaskList.cut l n).1]) := by
  obtain ⟨A, hr, rfl, rfl, hdeleted⟩ := h'
  have hcut : TaskList.cut l n = (l.take n, l.drop n) := by
    rw [TaskList.cut, List.splitAt_eq]
  have hs : A.step (.cut i n) = some ((A.setList i (l.drop n)).addList (l.take n)) := by
    simp [Lists.step, hi]
  rw [hcut]
  exact ensures_makeList hr hs List.length_set hdeleted

end Made

section Reads

theorem Stores.erase (h' : Stores h Q O) (hq : Q[q]? = some l) (ht : t ∈ l) :
    Ensures h (QueueObject.onHeap.eraseTask q (some t)) fun b h' =>
      b = true ∧ Stores h' (Q.set q (l.erase t)) O := by
  obtain ⟨A, hr, rfl, rfl, hdeleted⟩ := h'
  have hs : A.step (.erase q t false) =
      some ((A.setQueue q (l.erase t)).setCheck t none, .bool true) := by
    simp [Lists.step, hq, ht]
  apply (ensures_step hr hs).bind
  rintro _ h' ⟨rfl, hr'⟩
  exact ensures_pure ⟨rfl, _, hr', rfl, rfl, hdeleted⟩

theorem heap_next_snd {queue : TSQueue} {a : Hook} :
    (h.next queue a).2 = .pointer (h.links.next a) := by
  unfold Heap.next
  cases h.links.next a <;> rfl

theorem lists_read_snd {o : Option Nat} : (A.read q o).2 = .pointer (o.map Hook.elem) := by
  cases o <;> rfl

theorem Stores.taskNext (h' : Stores h Q O) (hq : Q[q]? = some l)
    (ht : t ∈ l ∨ t ∉ Q.flatten ++ O.flatten) :
    Ensures h (taskNext t) fun o h' => o = TaskQueue.nextWithoutLock l t ∧ Stores h' Q O := by
  obtain ⟨A, hr, rfl, rfl, hdeleted⟩ := h'
  have hnext : h.links.next (.elem t) = (TaskQueue.nextWithoutLock l t).map Hook.elem := by
    by_cases hmem : t ∈ l
    · obtain ⟨-, heq⟩ := hr.next hq hmem
      rw [heap_next_snd, lists_read_snd, after_eq] at heq
      injection heq
    · rw [(hr.free (ht.resolve_left hmem)).2, next_of_not_mem hmem]
      rfl
  refine (ensures_read (R := fun o h' => o = (TaskQueue.nextWithoutLock l t).map Hook.elem ∧ h' = h)
    rfl ⟨hnext, rfl⟩).bind ?_
  rintro _ _ ⟨rfl, rfl⟩
  cases TaskQueue.nextWithoutLock l t with
  | none => exact ensures_pure ⟨rfl, A, hr, rfl, rfl, hdeleted⟩
  | some u => exact ensures_pure ⟨rfl, A, hr, rfl, rfl, hdeleted⟩

theorem Stores.slist (h' : Stores h Q O) (hj : O[j]? = some l) : h.slists[j]? = some (SList.of l) := by
  obtain ⟨A, hr, rfl, rfl, -⟩ := h'
  exact hr.slist_some hj

theorem Stores.listSize (h' : Stores h Q O) (hj : O[j]? = some l) :
    Ensures h (listSize j) fun c h' => c = l.length ∧ Stores h' Q O := by
  refine ensures_read ?_ ⟨rfl, h'⟩
  show h.slists[j]?.map SList.count_ = _
  rw [h'.slist hj]
  rfl

theorem Stores.listEmpty (h' : Stores h Q O) (hj : O[j]? = some l) :
    Ensures h (listEmpty j) fun b h' => b = l.isEmpty ∧ Stores h' Q O := by
  refine ensures_read ?_ ⟨rfl, h'⟩
  rw [h'.slist hj, Option.map_some]
  cases l <;> rfl

theorem Stores.destroy (h' : Stores h Q O) (hj : O[j]? = some []) :
    Ensures h (destroy j) fun _ h' => Stores h' Q O := by
  apply (h'.listSize hj).bind
  rintro _ h₁ ⟨rfl, h''⟩
  exact ⟨(), h₁, rfl, h''⟩

end Reads

section Steal

variable {x : ProcesserLinks} {slist : List Nat}

open QueueObject

/-- The critical section of `Steal` on `runnableQueue_`, where the tasks that it takes are in a
list of their own at the end. -/
theorem lists_stealRunnable (size : Nat) (popTasks : Operation) (hA : Distinct A x)
    (hl : A.queues[x.runnableQueue_]? = some l) (hm : A.queues[x.newQueue_]? = some m)
    (hj : A.lists[j]? = some slist)
    (hrunning : ∀ t, x.runningTask_ = some t → t ∈ l ∨ A.fresh t = true)
    (hnext : ∀ t, x.nextTask_ = some t → t ∈ l)
    (hpop : ∀ (C : Lists) (q : List Nat), C.queues[x.runnableQueue_]? = some q →
      let r := if n > 0 then TaskQueue.popBackWithoutLock q ((n - size) % 2 ^ 32)
        else TaskQueue.popAllWithoutLock q
      C.step popTasks = some ((C.setQueue x.runnableQueue_ r.1).addList r.2)) :
    ∃ C, onLists.stealRunnable x popTasks j A = some (A.lists.length, C) ∧
      C.queues = A.queues.set x.runnableQueue_
        ((x.processer l m).stealRunnable n size).1.runnableQueue_ ∧
      C.lists = A.lists.set j [] ++ [((x.processer l m).stealRunnable n size).2 ++ slist] ∧
      C.deleted = A.deleted := by
  have hset : ∀ q', (A.queues.set x.runnableQueue_ q').set x.newQueue_ m =
      A.queues.set x.runnableQueue_ q' := by
    intro q'
    rw [← List.set_comm _ _ hA.ne.symm]
    congr 1
    exact congrArg Lists.queues (setQueue_self hm)
  have hstart : Stealing A A x l m [] [] := by
    refine ⟨?_, (List.append_nil _).symm, rfl, .refl _⟩
    rw [hset]
    exact (congrArg Lists.queues (setQueue_self hl)).symm
  obtain ⟨B₁, hrun₁, h₁⟩ := hstart.eraseTask hA hrunning
  have hnext' : ∀ t, x.nextTask_ = some t →
      t ∈ (Processer.pin l x.runningTask_).1 ∨ B₁.fresh t = true := by
    intro t ht
    by_cases hsame : x.runningTask_ = some t
    · right
      apply h₁.fresh hA
      rw [hsame, Processer.pin_of_mem (hnext t ht)]
      simp
    · exact .inl (Processer.mem_pin_of_ne (hnext t ht) hsame)
  obtain ⟨B₂, hrun₂, h₂⟩ := h₁.eraseTask hA hnext'
  generalize hq₁ : Processer.pin l x.runningTask_ = q₁ at *
  generalize hq₂ : Processer.pin q₁.1 x.nextTask_ = q₂ at *
  have hop := hpop B₂ q₂.1 (h₂.runnable hA)
  generalize hq₃ : (if n > 0 then TaskQueue.popBackWithoutLock q₂.1 ((n - size) % 2 ^ 32)
    else TaskQueue.popAllWithoutLock q₂.1) = q₃ at hop
  have hsplit : q₃.1 ++ q₃.2 = q₂.1 := by
    rw [← hq₃]
    split
    · exact TaskQueue.popBack_append
    · rfl
  obtain ⟨B₃, hrun₃, h₃⟩ := h₂.pop (h₂.runnable hA) hsplit hop (h₂.set_runnable hA _)
  have hlength : B₂.lists.length = A.lists.length := by
    rw [h₂.lists, List.append_nil]
  rw [List.nil_append] at h₃
  obtain ⟨B₄, hrun₄, h₄⟩ := h₃.pushTask hA fun hpush => pin_ne_none (hq₁ ▸ hpush)
  rw [← List.append_nil (if q₂.2 then x.nextTask_.toList else [])] at h₄
  obtain ⟨B₅, hrun₅, h₅⟩ := h₄.pushTask hA fun hpush => pin_ne_none (hq₂ ▸ hpush)
  have hsteal : (x.processer l m).stealRunnable n size =
      ({ x.processer l m with
        runnableQueue_ := q₃.1 ++ (if q₁.2 then x.runningTask_.toList else []) ++
          if q₂.2 then x.nextTask_.toList else [] }, q₃.2) := by
    unfold Processer.stealRunnable TaskQueue.pushWithoutLock
    simp only [ProcesserLinks.processer, hq₁, hq₂, hq₃]
    split <;> split <;> simp
  have hlt : j < A.lists.length := (List.getElem?_eq_some_iff.mp hj).1
  have hlists : B₅.lists = A.lists ++ [q₃.2] := h₅.lists
  have hstep : onLists.step B₅ (.append A.lists.length j) =
      some ((B₅.setList A.lists.length (q₃.2 ++ slist)).setList j [], .nothing) := by
    have hj₅ : B₅.lists[j]? = some slist := by
      rw [hlists, List.getElem?_append_left hlt, hj]
    show (B₅.lists[A.lists.length]?.bind _) = _
    rw [hlists, List.getElem?_concat_length, Option.bind_some, ← hlists, hj₅]
    simp [Nat.ne_of_gt hlt]
  rw [hlength] at hrun₃
  refine ⟨(B₅.setList A.lists.length (q₃.2 ++ slist)).setList j [], ?_, ?_, ?_, h₅.deleted⟩
  · apply bind_run hrun₁
    apply bind_run hrun₂
    apply bind_run hrun₃
    apply bind_run hrun₄
    apply bind_run hrun₅
    exact bind_run (call_run hstep) pure_run
  · rw [hsteal]
    exact h₅.queues.trans (hset _)
  · rw [hsteal]
    show (B₅.lists.set _ _).set _ _ = _
    rw [hlists, List.set_append_right _ _ (Nat.le_refl _), Nat.sub_self,
      List.set_append_left _ _ hlt]
    rfl

theorem Stores.stealRunnable {s : List Nat} (h' : Stores h Q O) (hne : x.runnableQueue_ ≠ x.newQueue_)
    (hl : Q[x.runnableQueue_]? = some l) (hm : Q[x.newQueue_]? = some m) (hj : O[j]? = some s)
    (hrunning : ∀ t, x.runningTask_ = some t → t ∈ l ∨ t ∉ Q.flatten ++ O.flatten)
    (hnext : ∀ t, x.nextTask_ = some t → t ∈ l) (hn : 0 < n → (n - s.length) % 2 ^ 32 ≠ 0) :
    Ensures h (onHeap.stealRunnable x (if n > 0 then .popBack x.runnableQueue_
      ((n - s.length) % 2 ^ 32) else .popAll x.runnableQueue_) j) fun i h' => i = O.length ∧
      Stores h' (Q.set x.runnableQueue_
        ((x.processer l m).stealRunnable n s.length).1.runnableQueue_)
        (O.set j [] ++ [((x.processer l m).stealRunnable n s.length).2 ++ s]) := by
  obtain ⟨A, hr, rfl, rfl, hdeleted⟩ := h'
  have hA := distinct_of_represents hr hl hm hne
  have hpop : ∀ (C : Lists) (q : List Nat), C.queues[x.runnableQueue_]? = some q →
      let r := if n > 0 then TaskQueue.popBackWithoutLock q ((n - s.length) % 2 ^ 32)
        else TaskQueue.popAllWithoutLock q
      C.step (if n > 0 then .popBack x.runnableQueue_ ((n - s.length) % 2 ^ 32)
        else .popAll x.runnableQueue_) = some ((C.setQueue x.runnableQueue_ r.1).addList r.2) := by
    intro C q hq
    by_cases hpos : n > 0
    · simp only [if_pos hpos]
      exact Stealing.popBack hq (hn hpos)
    · simp only [if_neg hpos]
      exact Stealing.popAll hq
  obtain ⟨C, hrun, hqueues, hlists, hdel⟩ := lists_stealRunnable s.length _ hA hl hm hj
    (fun t ht => (hrunning t ht).imp_right (fresh_of_out hdeleted)) hnext hpop
  obtain ⟨h₁, hrun₁, hr₁⟩ := refines_stealRunnable _ _ _ h A _ C hr hrun
  exact ⟨_, h₁, hrun₁, rfl, C, hr₁, hqueues, hlists, hdel.trans hdeleted⟩

end Steal

end LinkedScheduler

end CppGo.Scheduling
