import CppGo.Scheduler.LinkedProcess

/-!
# The dispatcher on linked queues

`AvgTotalTasks` takes tasks out of one queue and puts them into another, with two local lists
in between.  It asks for a number of tasks that it has counted before, and a `size_t` holds
that number as long as there are fewer than `2^31` tasks.
-/

namespace CppGo.Scheduling

open CppGo.Lib CppGo.Lib.Procedure CppGo.Common

def DispatcherPc.Counted (m n : Nat) : DispatcherPc → Prop
  | sizeRunnable counts => ∀ c ∈ counts, c ≤ 2 * m
  | sizeNew counts size => counts.length < n ∧ size ≤ m ∧ ∀ c ∈ counts, c ≤ 2 * m
  | stealRunnable a k slist =>
      slist.length < k ∧ k ≤ 2 * m ∧ ∀ c ∈ a.cacheTaskCounts, c ≤ 2 * m
  | steal a | deal a | addTask a _ => ∀ c ∈ a.cacheTaskCounts, c ≤ 2 * m
  | _ => True

namespace LinkedScheduler

variable {L : LinkedScheduler} {s t : Scheduler} {p : Nat} {x : Processer} {tk : TaskPtr}
  {d : DispatcherPc} {a : Averaging} {ls : LocalList → Option Nat} {Q O : List (List Nat)}

section Counts

variable {m m' n n' : Nat}

theorem counted_mono (h : d.Counted m n) (hm : m ≤ m') (hn : n ≤ n') : d.Counted m' n' := by
  have hall : ∀ {l : List Nat}, (∀ c ∈ l, c ≤ 2 * m) → ∀ c ∈ l, c ≤ 2 * m' := by
    intro l hl c hc
    have hle := hl c hc
    omega
  cases d with
  | idle | left tasks => trivial
  | sizeRunnable counts => exact hall h
  | sizeNew counts size =>
      obtain ⟨hlt, hsize, hcounts⟩ := h
      exact ⟨by omega, by omega, hall hcounts⟩
  | stealRunnable a k slist =>
      obtain ⟨hlt, hk, hcounts⟩ := h
      exact ⟨hlt, by omega, hall hcounts⟩
  | steal a | deal a | addTask a slist => exact hall h

theorem length_le (h : s.Tidy) (i : Place) : (s.contents i).length ≤ s.allocated := by
  have hsub : s.contents i ⊆ List.range s.allocated := by
    intro tk htk
    exact List.mem_range.mpr ((h.mem_iff tk).mpr ⟨i, htk⟩)
  have hle := (List.subperm_of_subset (h.nodup i) hsub).length_le
  rwa [List.length_range] at hle

theorem steal_count (h : ∀ c ∈ a.cacheTaskCounts, c ≤ 2 * m)
    (havg : a.avg < a.cacheTaskCounts.getD a.i 0) :
    0 < a.cacheTaskCounts.getD a.i 0 - a.avg ∧ a.cacheTaskCounts.getD a.i 0 - a.avg ≤ 2 * m := by
  have hle : a.cacheTaskCounts.getD a.i 0 ≤ 2 * m := by
    rw [List.getD_eq_getElem?_getD]
    cases hi : a.cacheTaskCounts[a.i]? with
    | none => exact Nat.zero_le _
    | some c => exact h c (List.mem_of_getElem? hi)
  omega

theorem counted_avgTotalTasks (htidy : s.Tidy) (h : s.dispatcher.Counted s.allocated s.size) :
    s.avgTotalTasks.dispatcher.Counted s.allocated s.size := by
  unfold Scheduler.avgTotalTasks
  cases hd : s.dispatcher with
  | idle =>
      simp only
      split
      · rw [hd]
        trivial
      · exact nofun
  | sizeRunnable counts =>
      rw [hd] at h
      simp only
      split
      · rename_i hlt
        exact ⟨hlt, length_le htidy (.processer _ .runnable), h⟩
      · split
        · trivial
        · exact h
  | sizeNew counts size =>
      rw [hd] at h
      obtain ⟨hlt, hsize, hcounts⟩ := h
      intro c hc
      rcases List.mem_append.mp hc with hc | hc
      · exact hcounts c hc
      · have hle := length_le htidy (.processer counts.length .new)
        change (s.processers_ counts.length).newQueue_.length ≤ s.allocated at hle
        rw [List.mem_singleton.mp hc]
        omega
  | steal a =>
      rw [hd] at h
      simp only
      unfold Scheduler.steal
      split
      · simp only
        split
        · rename_i havg
          obtain ⟨hpos, hle⟩ := steal_count h havg
          simp only
          split
          · exact h
          · rename_i hshort
            exact ⟨Nat.not_le.mp fun hn => hshort ⟨hpos, hn⟩, hle, h⟩
        · exact h
      · exact h
  | stealRunnable a k slist =>
      rw [hd] at h
      exact h.2.2
  | deal a =>
      rw [hd] at h
      simp only
      unfold Scheduler.deal
      split
      · simp only
        split
        · simp only
          split
          · trivial
          · exact h
        · exact h
      · trivial
  | addTask a slist =>
      rw [hd] at h
      exact h
  | left tasks =>
      simp only
      trivial

theorem process_fields (hs : s.process p = some t) :
    t.dispatcher = s.dispatcher ∧ t.allocated = s.allocated ∧ t.size = s.size := by
  cases Scheduler.processed hs with
  | branch hout hrun =>
      unfold Scheduler.branch
      simp only
      split <;> exact ⟨rfl, rfl, rfl⟩
  | _ => exact ⟨rfl, rfl, rfl⟩

theorem step_fields {e : SchedulerStep} (he : e ≠ .avgTotalTasks) (hs : s.step e = some t) :
    t.dispatcher = s.dispatcher ∧ s.allocated ≤ t.allocated ∧ s.size ≤ t.size := by
  cases Scheduler.stepped hs with
  | newProcessThread _ => exact ⟨rfl, Nat.le_refl _, Nat.le_succ _⟩
  | createTask n =>
      have hcreated := Scheduler.created s n
      generalize s.createTask n = t at hcreated
      cases hcreated with
      | reused hitr p m => exact ⟨rfl, Nat.le_refl _, Nat.le_refl _⟩
      | new hnone p m => exact ⟨rfl, Nat.le_succ _, Nat.le_refl _⟩
  | process hp hs =>
      obtain ⟨hd, hm, hn⟩ := process_fields hs
      exact ⟨hd, hm.ge, hn.ge⟩
  | wakeupBySelfIo hmem =>
      unfold Scheduler.wakeupBySelfIo
      split <;> exact ⟨rfl, Nat.le_refl _, Nat.le_refl _⟩
  | addTask _ | yield _ | suspendBySelfIo _ | runOn _ _ | finish _ | wakeupPush _ =>
      exact ⟨rfl, Nat.le_refl _, Nat.le_refl _⟩
  | avgTotalTasks => exact absurd rfl he

theorem avgTotalTasks_fields :
    s.avgTotalTasks.allocated = s.allocated ∧ s.avgTotalTasks.size = s.size := by
  unfold Scheduler.avgTotalTasks
  cases s.dispatcher with
  | idle | sizeRunnable counts | left tasks =>
      simp only
      split <;> exact ⟨rfl, rfl⟩
  | sizeNew counts size | stealRunnable a n slist | addTask a slist => exact ⟨rfl, rfl⟩
  | steal a | deal a =>
      simp only
      first | unfold Scheduler.steal | unfold Scheduler.deal
      split
      · simp only
        split <;> exact ⟨rfl, rfl⟩
      · exact ⟨rfl, rfl⟩

theorem counted_step {e : SchedulerStep} (htidy : s.Tidy)
    (h : s.dispatcher.Counted s.allocated s.size) (hs : s.step e = some t) :
    t.dispatcher.Counted t.allocated t.size := by
  by_cases he : e = .avgTotalTasks
  · rw [he] at hs
    cases hs
    rw [avgTotalTasks_fields.1, avgTotalTasks_fields.2]
    exact counted_avgTotalTasks htidy h
  · obtain ⟨hd, hm, hn⟩ := step_fields he hs
    rw [hd]
    exact counted_mono h hm hn

end Counts

section Steps

variable {c : LocalList → TaskList} {scope : LocalList → Bool} {d' : DispatcherPc}

theorem ensures_setDispatcher {control : Scheduler} {h : Heap} (hcontrol : control = s.hollow)
    (hst : Stores h Q O) (hl : Lays ls Q O (2 * s.size) s.queue c scope) (hd : d' = d.hollow)
    (hc : ∀ k, { s with dispatcher := d }.localList k = c k)
    (hs : ∀ k, { s with dispatcher := d }.inScope k = scope k) :
    Ensures { control := control, lists := ls, heap := h } (setDispatcher d') fun _ L' =>
      L'.Holds { s with dispatcher := d } := by
  refine ⟨(), _, rfl, ?_, Q, O, hst, ?_⟩
  · show { control with dispatcher := d' } = { s with dispatcher := d }.hollow
    rw [hcontrol, hd]
    rfl
  · rw [funext hc, funext hs]
    exact hl

def SameLists (d d' : DispatcherPc) : Prop :=
  d'.tasks = d.tasks ∧ d'.slist = d.slist ∧ d'.hasTasks = d.hasTasks ∧ d'.hasSlist = d.hasSlist

theorem holds_goOn (h : L.Holds s) (hd : d' = d.hollow) (hsame : SameLists s.dispatcher d) :
    Ensures L (setDispatcher d') fun _ L' => L'.Holds { s with dispatcher := d } := by
  obtain ⟨hcontrol, Q, O, hst, hl⟩ := h
  obtain ⟨htasks, hslist, hhas, hhas'⟩ := hsame
  apply ensures_setDispatcher hcontrol hst hl hd
  · intro k
    cases k with
    | elements p => rfl
    | tasks => exact htasks
    | slist => exact hslist
  · intro k
    cases k with
    | elements p => rfl
    | tasks => exact hhas
    | slist => exact hhas'

theorem holds_taken {n : Nat} {l : TaskList} (hcontrol : L.control = s.hollow)
    (hst : Stores L.heap Q O) (hd : s.dispatcher = .steal a)
    (hl : Lays L.lists Q O (2 * s.size) s.queue (Function.update s.localList .slist l)
      (Function.update s.inScope .slist true)) :
    Ensures L (do
      let slist ← getList .slist
      let size ← heapDo (listSize slist)
      if n > 0 ∧ size ≥ n then do
        appendTmp slist
        leave .slist
        setDispatcher (.steal { a with i := a.i + 1, tasks := [] })
      else setDispatcher (.stealRunnable { a with tasks := [] } n [])) fun _ L' =>
      L'.Holds
        { s with
          dispatcher :=
            if n > 0 ∧ l.length ≥ n then .steal { a with i := a.i + 1, tasks := a.tasks ++ l }
            else .stealRunnable a n l } := by
  have hhas : Function.update s.inScope .slist true .tasks = true :=
    congrArg DispatcherPc.hasTasks hd
  have htasks : Function.update s.localList .slist l .tasks = a.tasks :=
    congrArg DispatcherPc.tasks hd
  obtain ⟨j, hj, hOj⟩ := hl.number (k := .slist) (Function.update_self ..)
  obtain ⟨i, hi, hOi⟩ := hl.number hhas
  rw [Function.update_self] at hOj
  rw [htasks] at hOi
  have hij : i ≠ j := by
    rintro rfl
    cases hl.slots.injective hi hj
  apply (ensures_getList hj).bind
  rintro j L ⟨rfl, rfl⟩
  apply (ensures_heapDo (hst.listSize hOj)).bind
  rintro _ _ ⟨h', ⟨rfl, hst'⟩, rfl⟩
  by_cases hlen : n > 0 ∧ l.length ≥ n
  · simp only [if_pos hlen]
    apply (ensures_appendTmp (L := { L with heap := h' }) hi (hst'.append hij hOi hOj)).bind
    rintro _ _ ⟨h'', hst'', rfl⟩
    have hl' := (hl.setList hi (a.tasks ++ l)).setList hj []
    have hempty := hl'.slots.object hj
    rw [Function.update_self] at hempty
    apply (ensures_leave (L := { L with heap := h'' }) hj hst'' hempty).bind
    rintro _ _ ⟨h₃, hst₃, rfl⟩
    apply ensures_setDispatcher hcontrol hst₃ (hl'.leave (Function.update_self ..)) (by rfl)
    · intro k
      cases k <;> rfl
    · intro k
      cases k with
      | tasks => exact hhas.symm
      | elements p | slist => rfl
  · simp only [if_neg hlen]
    apply ensures_setDispatcher hcontrol hst' hl (by rfl)
    · intro k
      cases k with
      | tasks => exact htasks.symm
      | elements p | slist => rfl
    · intro k
      cases k with
      | tasks => exact hhas.symm
      | elements p | slist => rfl

theorem holds_stealNew {n : Nat} (h : L.Holds s) (hd : s.dispatcher = .steal a)
    (hi : a.i < s.size) (hpos : 0 < n) (hn : n < 2 ^ 32) :
    Ensures L (do
      enter .slist (.popBack (newQueue_ a.i) n)
      let slist ← getList .slist
      let size ← heapDo (listSize slist)
      if n > 0 ∧ size ≥ n then do
        appendTmp slist
        leave .slist
        setDispatcher (.steal { a with i := a.i + 1, tasks := [] })
      else setDispatcher (.stealRunnable { a with tasks := [] } n [])) fun _ L' =>
      L'.Holds
        { s.setProcesser a.i ((s.processers_ a.i).stealNew n).1 with
          dispatcher :=
            if n > 0 ∧ ((s.processers_ a.i).stealNew n).2.length ≥ n then
              .steal { a with
                i := a.i + 1, tasks := a.tasks ++ ((s.processers_ a.i).stealNew n).2 }
            else .stealRunnable a n ((s.processers_ a.i).stealNew n).2 } := by
  obtain ⟨hcontrol, Q, O, hst, hl⟩ := h
  have hq := hl.queue (newQueue_ a.i) (by unfold newQueue_; omega)
  rw [queue_new] at hq
  have hscope : s.dispatcher.hasSlist = false := congrArg DispatcherPc.hasSlist hd
  have hsteal : (s.processers_ a.i).stealNew n =
      ({ s.processers_ a.i with
        newQueue_ := ((s.processers_ a.i).newQueue_.popBackWithoutLock n).1 },
        ((s.processers_ a.i).newQueue_.popBackWithoutLock n).2) := by
    unfold Processer.stealNew
    rw [if_pos hpos, Nat.mod_eq_of_lt hn]
  rw [hsteal]
  apply (ensures_enter (hst.popBack hq hpos.ne')).bind
  rintro _ _ ⟨_, h', ⟨rfl, hst'⟩, rfl⟩
  have hl' := lays_new (l := ((s.processers_ a.i).newQueue_.popBackWithoutLock n).1) hl hi rfl
  refine holds_taken ?_ hst' hd (hl'.enter (k := .slist) hscope _)
  rw [hollow_of_same (by rfl), hcontrol]

theorem holds_steal (h : L.Holds s) (hd : s.dispatcher = .steal a)
    (hcounts : ∀ c ∈ a.cacheTaskCounts, c ≤ 2 * s.allocated) (hsmall : s.allocated < 2 ^ 31) :
    Ensures L (LinkedScheduler.steal s.hollow { a with tasks := [] }) fun _ L' =>
      L'.Holds (s.steal a) := by
  have hsize : s.hollow.size = s.size := rfl
  unfold LinkedScheduler.steal Scheduler.steal
  simp only [hsize]
  by_cases hi : a.i < s.size
  · by_cases havg : a.avg < a.cacheTaskCounts.getD a.i 0
    · obtain ⟨hpos, hle⟩ := steal_count hcounts havg
      have hn : a.cacheTaskCounts.getD a.i 0 - a.avg < 2 ^ 32 := by omega
      simp only [if_pos hi, if_pos havg, gt_iff_lt, if_pos hpos, Nat.mod_eq_of_lt hn]
      exact holds_stealNew h hd hi hpos hn
    · simp only [if_pos hi, if_neg havg]
      exact holds_goOn h (by rfl) (by rw [hd]; exact ⟨rfl, rfl, rfl, rfl⟩)
  · simp only [if_neg hi]
    exact holds_goOn h (by rfl) (by rw [hd]; exact ⟨rfl, rfl, rfl, rfl⟩)

theorem runnable_ne_new : runnableQueue_ p ≠ newQueue_ p := by
  unfold runnableQueue_ newQueue_
  omega

theorem holds_stealRunnable {n : Nat} {l : TaskList} (h : L.Holds s) (hcoh : s.Coherent)
    (hd : s.dispatcher = .stealRunnable a n l) (hi : a.i < s.size) (hlt : l.length < n)
    (hn : n < 2 ^ 32) :
    Ensures L (LinkedScheduler.stealRunnable s.hollow { a with tasks := [] } n) fun _ L' =>
      L'.Holds (s.stealRunnable a n l) := by
  obtain ⟨hcontrol, Q, O, hst, hl⟩ := h
  have hq := hl.queue (runnableQueue_ a.i) (by unfold runnableQueue_; omega)
  have hq' := hl.queue (newQueue_ a.i) (by unfold newQueue_; omega)
  rw [queue_runnable] at hq
  rw [queue_new] at hq'
  have hslist : s.localList .slist = l :=
    congrArg DispatcherPc.slist hd
  have htasks : s.localList .tasks = a.tasks :=
    congrArg DispatcherPc.tasks hd
  have hhas : s.inScope .tasks = true :=
    congrArg DispatcherPc.hasTasks hd
  have hhas' : s.inScope .slist = true :=
    congrArg DispatcherPc.hasSlist hd
  obtain ⟨j, hj, hOj⟩ := hl.number hhas'
  obtain ⟨i, hi', hOi⟩ := hl.number hhas
  rw [hslist] at hOj
  rw [htasks] at hOi
  have hij : i ≠ j := by
    rintro rfl
    cases hl.slots.injective hi' hj
  unfold LinkedScheduler.stealRunnable Scheduler.stealRunnable
  simp only [hcoh.owns_running, hcoh.owns_next, Bool.and_self, Scheduler.assert_true]
  apply (ensures_getList hj).bind
  rintro j L ⟨rfl, rfl⟩
  apply (ensures_heapDo (hst.listSize hOj)).bind
  rintro _ _ ⟨h', ⟨rfl, hst'⟩, rfl⟩
  have hsteal := hst'.stealRunnable (n := n)
    (x := { runnableQueue_ := runnableQueue_ a.i, newQueue_ := newQueue_ a.i,
            runningTask_ := (s.processers_ a.i).runningTask_,
            nextTask_ := (s.processers_ a.i).nextTask_ })
    runnable_ne_new hq hq' hOj
    (fun t ht => known_of_running hl hcoh ht) (hcoh.next a.i)
    (fun _ => by rw [Nat.mod_eq_of_lt (by omega)]; omega)
  apply (ensures_heapDo (L := { L with heap := h' }) hsteal).bind
  rintro _ _ ⟨h'', ⟨rfl, hst''⟩, rfl⟩
  have hsame := (Processer.stealRunnable_spec (s.processers_ a.i) n l.length).same
  have hqueue := lays_runnable hl hi hsame
  change Stores h'' (Q.set _ ((s.processers_ a.i).stealRunnable n l.length).1.runnableQueue_)
    (O.set j [] ++ [((s.processers_ a.i).stealRunnable n l.length).2 ++ l]) at hst''
  generalize ((s.processers_ a.i).stealRunnable n l.length) = r at hst'' hsame hqueue ⊢
  have hlays := ((hqueue.setList hj []).setList hi' (a.tasks ++ (r.2 ++ l))).addNil
  have hne : i < (O.set j []).length := by
    rw [List.length_set]
    exact hl.slots.lt_length hi'
  have hset : ((O.set j [] ++ [r.2 ++ l]).set i (a.tasks ++ (r.2 ++ l))).set O.length [] =
      (O.set j []).set i (a.tasks ++ (r.2 ++ l)) ++ [[]] := by
    rw [List.set_append_left _ _ hne, List.set_append_right _ _ (by simp)]
    simp
  have hi'' : (O.set j [] ++ [r.2 ++ l])[i]? = some a.tasks := by
    rw [List.getElem?_append_left hne, List.getElem?_set_ne hij.symm, hOi]
  have hlast : (O.set j [] ++ [r.2 ++ l])[O.length]? = some (r.2 ++ l) := by
    simp
  apply (ensures_appendTmp (L := { L with heap := h'' }) hi'
    (hst''.append (hl.slots.lt_length hi').ne hi'' hlast)).bind
  rintro _ _ ⟨h₃, hst₃, rfl⟩
  rw [hset] at hst₃
  apply (ensures_heapDo (L := { L with heap := h₃ }) (hst₃.destroy (by simp))).bind
  rintro _ _ ⟨h₄, hst₄, rfl⟩
  apply (ensures_leave (L := { L with heap := h₄ }) hj hst₄ (hlays.slots.object hj)).bind
  rintro _ _ ⟨h₅, hst₅, rfl⟩
  apply ensures_setDispatcher _ hst₅ (hlays.leave (k := .slist) rfl) (by rfl)
  · intro k
    cases k <;> rfl
  · intro k
    cases k with
    | tasks => exact hhas.symm
    | elements p | slist => rfl
  · rw [hollow_of_same (by rw [hsame]; rfl)]
    exact hcontrol

theorem holds_deal (h : L.Holds s) (hd : s.dispatcher = .deal a) :
    Ensures L (LinkedScheduler.deal s.hollow { a with tasks := [] }) fun _ L' =>
      L'.Holds (s.deal a) := by
  have hsize : s.hollow.size = s.size := rfl
  unfold LinkedScheduler.deal Scheduler.deal
  simp only [hsize]
  by_cases hi : a.i < s.size
  · by_cases havg : a.avg > a.cacheTaskCounts.getD a.i 0
    · simp only [if_pos hi, if_pos havg]
      obtain ⟨hcontrol, Q, O, hst, hl⟩ := h
      have htasks : s.localList .tasks = a.tasks :=
        congrArg DispatcherPc.tasks hd
      have hhas : s.inScope .tasks = true :=
        congrArg DispatcherPc.hasTasks hd
      have hscope : s.inScope .slist = false :=
        congrArg DispatcherPc.hasSlist hd
      obtain ⟨i, hi', hOi⟩ := hl.number hhas
      rw [htasks] at hOi
      generalize a.avg - a.cacheTaskCounts.getD a.i 0 = n
      apply (ensures_getList hi').bind
      rintro i L ⟨rfl, rfl⟩
      apply (ensures_enter (hst.cut (n := n) hOi)).bind
      rintro _ _ ⟨_, h', ⟨rfl, hst'⟩, rfl⟩
      generalize a.tasks.cut n = r at hst' ⊢
      have hlays := (hl.setList hi' r.2).enter hscope r.1
      rw [List.length_set] at hlays
      have hj : Function.update L.lists .slist (some O.length) .slist = some O.length :=
        Function.update_self ..
      have hOj := hlays.slots.object hj
      rw [Function.update_self] at hOj
      apply (ensures_getList (L := { L with
        heap := h', lists := Function.update L.lists .slist (some O.length) }) hj).bind
      rintro j _ ⟨rfl, rfl⟩
      apply (ensures_heapDo (hst'.listEmpty hOj)).bind
      rintro _ _ ⟨h'', ⟨rfl, hst''⟩, rfl⟩
      by_cases hempty : r.1.isEmpty = true
      · simp only [if_pos hempty]
        have hnil : r.1 = [] := List.isEmpty_iff.mp hempty
        rw [hnil] at hst'' hOj hlays
        apply (ensures_leave (L := { L with
          heap := h'', lists := Function.update L.lists .slist (some O.length) }) hj hst''
          hOj).bind
        rintro _ _ ⟨h₃, hst₃, rfl⟩
        apply ensures_setDispatcher hcontrol hst₃ (hlays.leave (k := .slist) rfl) (by rfl)
        · intro k
          cases k <;> rfl
        · intro k
          cases k with
          | tasks => exact hhas.symm
          | elements p | slist => rfl
      · simp only [if_neg hempty]
        apply ensures_setDispatcher hcontrol hst'' hlays (by rfl)
        · intro k
          cases k <;> rfl
        · intro k
          cases k with
          | tasks => exact hhas.symm
          | elements p | slist => rfl
    · simp only [if_pos hi, if_neg havg]
      exact holds_goOn h (by rfl) (by rw [hd]; exact ⟨rfl, rfl, rfl, rfl⟩)
  · simp only [if_neg hi]
    exact holds_goOn h (by rfl) (by rw [hd]; exact ⟨rfl, rfl, rfl, rfl⟩)

theorem ensures_give {k : LocalList} {q n : Nat} {l : TaskQueue} {queue : Nat → TaskQueue}
    {f : Procedure LinkedScheduler Unit} {R : Unit → LinkedScheduler → Prop}
    (hst : Stores L.heap Q O) (hq : Q[q]? = some l) (hk : scope k = true)
    (hl : Lays L.lists (Q.set q (l ++ c k)) O n queue c scope)
    (hf : ∀ ls h' O', Stores h' (Q.set q (l ++ c k)) O' →
      Lays ls (Q.set q (l ++ c k)) O' n queue (Function.update c k [])
        (Function.update scope k false) →
      Ensures { control := L.control, lists := ls, heap := h' } f R) :
    Ensures L (do
      pushList q k
      leave k
      f) R := by
  obtain ⟨j, hj, hOj⟩ := hl.number hk
  apply (ensures_pushList hj (hst.pushAll hq hOj)).bind
  rintro _ _ ⟨h', hst', rfl⟩
  have hlays := hl.setList hj []
  have hempty := hlays.slots.object hj
  rw [Function.update_self] at hempty
  apply (ensures_leave (L := { L with heap := h' }) hj hst' hempty).bind
  rintro _ _ ⟨h'', hst'', rfl⟩
  exact hf _ _ _ hst'' (hlays.leave (Function.update_self ..))

theorem holds_pushNew {k : LocalList} {l : TaskList} (h : L.Holds s) (hp : p < s.size)
    (hk : s.inScope k = true) (hkl : s.localList k = l) (hd : d' = d.hollow)
    (hc : ∀ m, { s with dispatcher := d }.localList m = Function.update s.localList k [] m)
    (hs : ∀ m, { s with dispatcher := d }.inScope m = Function.update s.inScope k false m) :
    Ensures L (do
      pushList (newQueue_ p) k
      leave k
      setDispatcher d') fun _ L' => L'.Holds { s.pushNew p l with dispatcher := d } := by
  obtain ⟨hcontrol, Q, O, hst, hl⟩ := h
  have hq := hl.queue (newQueue_ p) (by unfold newQueue_; omega)
  rw [queue_new] at hq
  have hlocal : (s.pushNew p l).localList = s.localList := localList_of_same rfl
  have hscope : (s.pushNew p l).inScope = s.inScope := inScope_of_same rfl
  have hqueue : Lays L.lists (Q.set (newQueue_ p) ((s.processers_ p).newQueue_ ++ s.localList k)) O
      (2 * s.size) (s.pushNew p l).queue s.localList s.inScope := by
    rw [hkl, ← hlocal, ← hscope]
    exact lays_new hl hp rfl
  apply ensures_give hst hq hk hqueue
  intro ls h' O' hst' hl'
  refine ensures_setDispatcher (s := s.pushNew p l) ?_ hst' hl' hd ?_ ?_
  · rw [Scheduler.pushNew, hollow_of_same (by rfl), hcontrol]
  · intro m
    rw [← hc m]
    cases m with
    | elements p' => exact congrFun hlocal (.elements p')
    | tasks | slist => rfl
  · intro m
    rw [← hs m]
    cases m with
    | elements p' => exact congrFun hscope (.elements p')
    | tasks | slist => rfl

theorem holds_addTaskSlist {l : TaskList} (h : L.Holds s) (hd : s.dispatcher = .addTask a l)
    (hi : a.i < s.size) :
    Ensures L (do
      pushList (newQueue_ a.i) .slist
      leave .slist
      setDispatcher (.deal { a with i := a.i + 1, tasks := [] })) fun _ L' =>
      L'.Holds { s.pushNew a.i l with dispatcher := .deal { a with i := a.i + 1 } } := by
  have htasks : s.localList .tasks = a.tasks := congrArg DispatcherPc.tasks hd
  have hhas : s.inScope .tasks = true := congrArg DispatcherPc.hasTasks hd
  apply holds_pushNew (k := .slist) h hi (congrArg DispatcherPc.hasSlist hd)
    (congrArg DispatcherPc.slist hd) (by rfl)
  · intro k
    cases k with
    | tasks => exact htasks.symm
    | elements p | slist => rfl
  · intro k
    cases k with
    | tasks => exact hhas.symm
    | elements p | slist => rfl

theorem holds_left {l : TaskList} (h : L.Holds s) (hd : s.dispatcher = .left l)
    (hpos : 0 < s.size) :
    Ensures L (do
      let tasks ← getList .tasks
      let empty ← heapDo (listEmpty tasks)
      if empty then pure () else pushList (newQueue_ 0) .tasks
      leave .tasks
      setDispatcher .idle) fun _ L' =>
      L'.Holds { (if l.isEmpty then s else s.pushNew 0 l) with dispatcher := .idle } := by
  have hhas : s.inScope .tasks = true := congrArg DispatcherPc.hasTasks hd
  have htasks : s.localList .tasks = l := congrArg DispatcherPc.tasks hd
  have hscope : s.inScope .slist = false := congrArg DispatcherPc.hasSlist hd
  have hslist : s.localList .slist = [] := congrArg DispatcherPc.slist hd
  have hlists : ∀ k, { s with dispatcher := .idle }.localList k =
      Function.update s.localList .tasks [] k := by
    intro k
    cases k with
    | slist => exact hslist.symm
    | elements p | tasks => rfl
  have hscopes : ∀ k, { s with dispatcher := .idle }.inScope k =
      Function.update s.inScope .tasks false k := by
    intro k
    cases k with
    | slist => exact hscope.symm
    | elements p | tasks => rfl
  obtain ⟨hcontrol, Q, O, hst, hl⟩ := h
  obtain ⟨i, hi, hOi⟩ := hl.number hhas
  rw [htasks] at hOi
  apply (ensures_getList hi).bind
  rintro i L ⟨rfl, rfl⟩
  apply (ensures_heapDo (hst.listEmpty hOi)).bind
  rintro _ _ ⟨h', ⟨rfl, hst'⟩, rfl⟩
  by_cases hempty : l.isEmpty = true
  · simp only [if_pos hempty]
    have hnil : l = [] := List.isEmpty_iff.mp hempty
    rw [hnil] at hOi htasks
    apply (ensures_leave (L := { L with heap := h' }) hi hst' hOi).bind
    rintro _ _ ⟨h'', hst'', rfl⟩
    have hlays := hl.leave htasks
    refine ensures_setDispatcher hcontrol hst'' hlays (by rfl) ?_ hscopes
    intro k
    rw [hlists, ← htasks, Function.update_eq_self]
  · simp only [if_neg hempty]
    have h' : Holds { L with heap := h' } s := ⟨hcontrol, Q, O, hst', hl⟩
    exact holds_pushNew h' hpos hhas htasks (by rfl) hlists hscopes

theorem holds_sizeRunnable {counts : List Nat} (h : L.Holds s)
    (hd : s.dispatcher = .sizeRunnable counts) :
    Ensures L (LinkedScheduler.avgTotalTasks s.hollow) fun _ L' => L'.Holds s.avgTotalTasks := by
  have hd' : s.hollow.dispatcher = .sizeRunnable counts := congrArg DispatcherPc.hollow hd
  have hsize : s.hollow.size = s.size := rfl
  unfold LinkedScheduler.avgTotalTasks Scheduler.avgTotalTasks
  rw [hd', hsize, hd]
  by_cases hi : counts.length < s.size
  · simp only [if_pos hi]
    obtain ⟨hcontrol, Q, O, hst, hl⟩ := h
    have hq := hl.queue (runnableQueue_ counts.length) (by unfold runnableQueue_; omega)
    rw [queue_runnable] at hq
    apply (ensures_heapDo (hst.size hq)).bind
    rintro _ _ ⟨h', ⟨rfl, hst'⟩, rfl⟩
    have h' : Holds { L with heap := h' } s := ⟨hcontrol, Q, O, hst', hl⟩
    exact holds_goOn h' (by rfl) (by rw [hd]; exact ⟨rfl, rfl, rfl, rfl⟩)
  · simp only [if_neg hi]
    by_cases havg : counts.sum / s.size = 0
    · simp only [if_pos havg]
      exact holds_goOn h (by rfl) (by rw [hd]; exact ⟨rfl, rfl, rfl, rfl⟩)
    · simp only [if_neg havg]
      obtain ⟨hcontrol, Q, O, hst, hl⟩ := h
      have hscope : s.inScope .tasks = false := congrArg DispatcherPc.hasTasks hd
      have hscope' : s.inScope .slist = false := congrArg DispatcherPc.hasSlist hd
      have hslist : s.localList .slist = [] := congrArg DispatcherPc.slist hd
      apply (ensures_enter hst.newSList).bind
      rintro _ _ ⟨_, h', ⟨rfl, hst'⟩, rfl⟩
      apply ensures_setDispatcher hcontrol hst' (hl.enter hscope []) (by rfl)
      · intro k
        cases k with
        | slist => exact hslist.symm
        | elements p | tasks => rfl
      · intro k
        cases k with
        | slist => exact hscope'.symm
        | elements p | tasks => rfl

theorem holds_sizeNew {counts : List Nat} {size : Nat} (h : L.Holds s)
    (hd : s.dispatcher = .sizeNew counts size) (hlt : counts.length < s.size) :
    Ensures L (LinkedScheduler.avgTotalTasks s.hollow) fun _ L' => L'.Holds s.avgTotalTasks := by
  have hd' : s.hollow.dispatcher = .sizeNew counts size := congrArg DispatcherPc.hollow hd
  unfold LinkedScheduler.avgTotalTasks Scheduler.avgTotalTasks
  rw [hd', hd]
  obtain ⟨hcontrol, Q, O, hst, hl⟩ := h
  have hq := hl.queue (newQueue_ counts.length) (by unfold newQueue_; omega)
  rw [queue_new] at hq
  apply (ensures_heapDo (hst.size hq)).bind
  rintro _ _ ⟨h', ⟨rfl, hst'⟩, rfl⟩
  have h' : Holds { L with heap := h' } s := ⟨hcontrol, Q, O, hst', hl⟩
  exact holds_goOn h' (by rfl) (by rw [hd]; exact ⟨rfl, rfl, rfl, rfl⟩)

/-- The next step of `AvgTotalTasks` is the same one on the linked queues. -/
theorem holds_avgTotalTasks (h : L.Holds s) (hcoh : s.Coherent) (hb : s.Bounded)
    (hcounted : s.dispatcher.Counted s.allocated s.size) (hsmall : s.allocated < 2 ^ 31) :
    Ensures L (LinkedScheduler.avgTotalTasks L.control) fun _ L' => L'.Holds s.avgTotalTasks := by
  have hwithin := hb.dispatcher
  have hd' : s.hollow.dispatcher = s.dispatcher.hollow := rfl
  rw [h.1]
  cases hd : s.dispatcher with
  | idle =>
      have hsize : s.hollow.size = s.size := rfl
      unfold LinkedScheduler.avgTotalTasks Scheduler.avgTotalTasks
      rw [hd', hsize, hd]
      by_cases hlt : s.size < 2
      · simp only [DispatcherPc.hollow, if_pos hlt]
        exact ensures_pure h
      · simp only [DispatcherPc.hollow, if_neg hlt]
        exact holds_goOn h (by rfl) (by rw [hd]; exact ⟨rfl, rfl, rfl, rfl⟩)
  | sizeRunnable counts => exact holds_sizeRunnable h hd
  | sizeNew counts size =>
      rw [hd] at hcounted
      exact holds_sizeNew h hd hcounted.1
  | steal a =>
      rw [hd] at hcounted
      unfold LinkedScheduler.avgTotalTasks Scheduler.avgTotalTasks
      rw [hd', hd]
      exact holds_steal h hd hcounted hsmall
  | stealRunnable a n l =>
      rw [hd] at hcounted hwithin
      obtain ⟨hlt, hle, -⟩ := hcounted
      unfold LinkedScheduler.avgTotalTasks Scheduler.avgTotalTasks
      rw [hd', hd]
      exact holds_stealRunnable h hcoh hd hwithin hlt (by omega)
  | deal a =>
      unfold LinkedScheduler.avgTotalTasks Scheduler.avgTotalTasks
      rw [hd', hd]
      exact holds_deal h hd
  | addTask a l =>
      rw [hd] at hwithin
      unfold LinkedScheduler.avgTotalTasks Scheduler.avgTotalTasks
      rw [hd', hd]
      exact holds_addTaskSlist h hd hwithin
  | left l =>
      unfold LinkedScheduler.avgTotalTasks Scheduler.avgTotalTasks
      rw [hd', hd]
      exact holds_left h hd hb.size_pos

end Steps

end LinkedScheduler

end CppGo.Scheduling
