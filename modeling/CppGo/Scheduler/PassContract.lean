import CppGo.Scheduler.Pass

/-!
# One pass runs every queued task once

`runningTask_` and `nextTask_` point into the part of `runnableQueue_` that has not been
visited.  What is in front of it are the tasks that have yielded.
-/

namespace CppGo.Scheduling

open CppGo.Lib CppGo.Lib.Machine

section Queue

variable {pre rest : TaskQueue} {tk : TaskPtr}

theorem next_of_split (h : (pre ++ tk :: rest).Nodup) :
    TaskQueue.nextWithoutLock (pre ++ tk :: rest) tk = rest.head? := by
  induction pre with
  | nil => exact if_pos rfl
  | cons a pre ih =>
      rw [List.cons_append, List.nodup_cons] at h
      have hne : a ≠ tk := by
        rintro rfl
        exact h.1 (List.mem_append_right _ List.mem_cons_self)
      exact (if_neg hne).trans (ih h.2)

theorem erase_of_split (h : (pre ++ tk :: rest).Nodup) :
    TaskQueue.eraseWithoutLock (pre ++ tk :: rest) tk = (pre ++ rest, true) := by
  have hmem : tk ∈ pre ++ tk :: rest := List.mem_append_right _ List.mem_cons_self
  rw [TaskQueue.erase_of_mem hmem, List.erase_append_right, List.erase_cons_head]
  exact fun hpre => (List.nodup_append.mp h).2.2 tk hpre tk List.mem_cons_self rfl

end Queue

namespace LoopPass

/-- Where the thread is in the list `q`: the tasks of `rest` have not been swapped in yet,
`inside` is the one whose `SwapIn` has not ended, and the pass takes at most `rank` steps
of the thread until it is back at the head of the loop, and six for each task of `rest`. -/
structure At (q : TaskList) (S : LoopPass) (x : Processer) (queue : TaskQueue)
    (running next : Option TaskPtr) (inside rest : TaskList) (rank : Nat) : Prop where
  split : q = S.swapped ++ rest
  outcomes : S.swapped = S.outcomes.map Prod.fst ++ inside
  queue : x.runnableQueue_ = queue
  running : x.runningTask_ = running
  next : x.nextTask_ = next
  steps : S.steps + 6 * rest.length + rank ≤ 6 * q.length + 5
  popped : S.popped = []
  later : S.later = []
  going : S.ended = false

inductive Stage (q : TaskList) (S : LoopPass) (x : Processer) : ProcessPc → Prop
  | front {pc : ProcessPc} (hpc : pc = .front ∨ pc = .frontAgain) (hne : q ≠ [])
      (h : At q S x q x.runningTask_ none [] q 5) : Stage q S x pc
  | loop {rest : TaskList} (h : At q S x (S.kept ++ rest) rest.head? none [] rest 4) :
      Stage q S x .loop
  | exec {tk : TaskPtr} {rest : TaskList}
      (h : At q S x (S.kept ++ tk :: rest) (some tk) none [tk] rest 9) : Stage q S x (.exec tk)
  | suspending {tk : TaskPtr} {rest : TaskList}
      (h : At q S x (S.kept ++ tk :: rest) (some tk) none [tk] rest 8) :
      Stage q S x (.suspending tk)
  | suspended {tk : TaskPtr} {rest : TaskList}
      (h : At q S x (S.kept ++ rest) (some tk) rest.head? [tk] rest 7)
      (hmem : tk ∈ S.scheduler.suspended) : Stage q S x (.suspended tk)
  /-- The task has suspended itself. -/
  | blocked {pc : ProcessPc} {tk : TaskPtr} {rest : TaskList} (hpc : pc = .switched ∨ pc = .block)
      (h : At q S x (S.kept ++ rest) (some tk) rest.head? [] rest (if pc = .block then 5 else 6))
      (hmem : tk ∈ S.scheduler.suspended) : Stage q S x pc
  /-- The task has yielded. -/
  | yielded {pc : ProcessPc} {tk : TaskPtr} {pre rest : TaskList}
      (hpc : pc = .switched ∨ pc = .runnable) (hkept : S.kept = pre ++ [tk])
      (h : At q S x (pre ++ tk :: rest) (some tk) none [] rest (if pc = .runnable then 5 else 6))
      (hstate : (S.scheduler.task tk).state_ = .runnable) : Stage q S x pc
  /-- The function of the task has returned. -/
  | done {pc : ProcessPc} {tk : TaskPtr} {rest : TaskList} (hpc : pc = .switched ∨ pc = .doneNext)
      (h : At q S x (S.kept ++ tk :: rest) (some tk) none [] rest (if pc = .doneNext then 7 else 8))
      (hstate : (S.scheduler.task tk).state_ = .done) : Stage q S x pc
  | doneErase {tk : TaskPtr} {rest : TaskList}
      (h : At q S x (S.kept ++ tk :: rest) (some tk) rest.head? [] rest 6) : Stage q S x .doneErase
  | doneAdvance {tk : TaskPtr} {rest : TaskList}
      (h : At q S x (S.kept ++ rest) (some tk) rest.head? [] rest 5) : Stage q S x .doneAdvance
  | addEmpty (h : At q S x S.kept none none [] [] 3) : Stage q S x (.addEmpty false)
  | addPop (h : At q S x S.kept none none [] [] 2) : Stage q S x (.addPop false)
  | addPush {elements : TaskList}
      (h : At q { S with popped := [], later := [] } x S.kept none none [] [] 1)
      (hpopped : S.popped = elements) (hlater : x.newQueue_ = S.later) :
      Stage q S x (.addPush false elements)
  | ended (h : At q { S with popped := [], later := [], ended := false } x (S.kept ++ S.popped)
      none none [] [] 0) (hlater : x.newQueue_ = S.later) (hended : S.ended = true) :
      Stage q S x .front

/-- The invariant of the pass, for the contents `q` and `new` of the queues at its start. -/
structure Inv (p : Nat) (q new : TaskList) (S : LoopPass) : Prop where
  coherent : S.scheduler.Coherent
  size : p < S.scheduler.size
  nodup : q.Nodup
  stage : Stage q S (S.scheduler.processers_ p) (S.scheduler.processers_ p).pc
  fifo : S.popped ++ (S.scheduler.processers_ p).newQueue_ = new ++ S.added ++ S.later
  fresh : ∀ tk ∈ S.created, tk ∈ q → tk ∈ S.swapped
  late : S.late = []

variable {p : Nat} {q new : TaskList} {S T : LoopPass} {x y : Processer} {e : SchedulerStep}
  {t : Scheduler}

section Beside

variable {queue : TaskQueue} {running next : Option TaskPtr}
  {inside rest created added later l : TaskList} {rank : Nat} {pc : ProcessPc}

theorem At.beside (h : At q S x queue running next inside rest rank) (hlater : later = S.later) :
    At q { S with scheduler := t, created := created, added := added, later := later }
      { x with newQueue_ := l } queue running next inside rest rank :=
  ⟨h.split, h.outcomes, h.queue, h.running, h.next, h.steps, h.popped, hlater.trans h.later,
    h.going⟩

theorem Stage.beside (h : Stage q S x pc) (hgoing : S.ended = false)
    (htask : ∀ tk, x.runningTask_ = some tk → tk ∈ x.runnableQueue_ →
      t.task tk = S.scheduler.task tk)
    (hsuspended : ∀ tk, x.runningTask_ = some tk → tk ∈ S.scheduler.suspended →
      tk ∈ t.suspended) :
    Stage q
      { S with
        scheduler := t
        created := created
        added := added
        later := S.later ++ if pc.looked then l else [] }
      { x with newQueue_ := x.newQueue_ ++ l } pc := by
  have hnil : S.later ++ [] = S.later := List.append_nil _
  cases h with
  | front hpc hne h => rcases hpc with rfl | rfl <;> exact .front (by simp) hne (h.beside hnil)
  | loop h => exact .loop (h.beside hnil)
  | exec h => exact .exec (h.beside hnil)
  | suspending h => exact .suspending (h.beside hnil)
  | suspended h hmem => exact .suspended (h.beside hnil) (hsuspended _ h.running hmem)
  | blocked hpc h hmem =>
      rcases hpc with rfl | rfl <;>
        exact .blocked (by simp) (h.beside hnil) (hsuspended _ h.running hmem)
  | yielded hpc hkept h hstate =>
      have hmem := h.queue ▸ List.mem_append_right _ List.mem_cons_self
      have hstate := htask _ h.running hmem ▸ hstate
      rcases hpc with rfl | rfl <;> exact .yielded (by simp) hkept (h.beside hnil) hstate
  | done hpc h hstate =>
      have hmem := h.queue ▸ List.mem_append_right _ List.mem_cons_self
      have hstate := htask _ h.running hmem ▸ hstate
      rcases hpc with rfl | rfl <;> exact .done (by simp) (h.beside hnil) hstate
  | doneErase h => exact .doneErase (h.beside hnil)
  | doneAdvance h => exact .doneAdvance (h.beside hnil)
  | addEmpty h => exact .addEmpty (h.beside hnil)
  | addPop h => exact .addPop (h.beside hnil)
  | addPush h hpopped hlater => exact .addPush (h.beside rfl) hpopped (by rw [hlater]; rfl)
  | ended h hlater hended =>
      rw [hgoing] at hended
      cases hended

end Beside

section Own

variable {queue queue' : TaskQueue} {running next running' next' : Option TaskPtr}
  {inside rest : TaskList} {rank rank' : Nat} {pc : ProcessPc} {tk : TaskPtr} {o : SwapOut}

/-- What the pass records of a step of its thread. -/
theorem after_own (hown : Scheduler.own p e = true) :
    S.after p e t =
      { S with
        scheduler := t
        swapped := S.swapped ++ S.scheduler.swapsIn p e
        late := S.late ++ (S.scheduler.swapsIn p e).filter fun tk => tk ∈ S.created
        outcomes := S.outcomes ++ S.scheduler.swapsOut p e
        popped := S.popped ++ S.scheduler.takes p e
        steps := S.steps + 1
        ended := decide ((t.processers_ p).pc = .front) } := by
  cases e with
  | process p' | yield p' | suspendBySelfIo p' | runOn p' | finish p' =>
      simp [after, hown, Scheduler.creates, Scheduler.gives]
  | newProcessThread | createTask _ | addTask _ | wakeupBySelfIo _ | wakeupPush _
  | avgTotalTasks => cases hown

theorem At.move (h : At q S x queue running next inside rest rank) (hrank : rank' < rank)
    (hqueue : y.runnableQueue_ = queue') (hrunning : y.runningTask_ = running')
    (hnext : y.nextTask_ = next') :
    At q { S with scheduler := t, steps := S.steps + 1 } y queue' running' next' inside rest
      rank' where
  split := h.split
  outcomes := h.outcomes
  queue := hqueue
  running := hrunning
  next := hnext
  steps := by
    have hsteps := h.steps
    dsimp only
    omega
  popped := h.popped
  later := h.later
  going := h.going

theorem At.swapOut (h : At q S x queue running next [tk] rest rank) (hrank : rank' < rank)
    (hqueue : y.runnableQueue_ = queue') (hrunning : y.runningTask_ = running')
    (hnext : y.nextTask_ = next') :
    At q { S with scheduler := t, outcomes := S.outcomes ++ [(tk, o)], steps := S.steps + 1 } y
      queue' running' next' [] rest rank' where
  split := h.split
  outcomes := by rw [h.outcomes, List.map_append, List.append_nil]; rfl
  queue := hqueue
  running := hrunning
  next := hnext
  steps := by
    have hsteps := h.steps
    dsimp only
    omega
  popped := h.popped
  later := h.later
  going := h.going

theorem At.swapIn {late : List TaskPtr}
    (h : At q S x queue running next [] (tk :: rest) 4)
    (hqueue : y.runnableQueue_ = queue') (hrunning : y.runningTask_ = running')
    (hnext : y.nextTask_ = next') :
    At q { S with
      scheduler := t, swapped := S.swapped ++ [tk], late := late, steps := S.steps + 1 } y
      queue' running' next' [tk] rest 9 where
  split := by rw [h.split, List.append_assoc]; rfl
  outcomes := by rw [h.outcomes, List.append_nil]
  queue := hqueue
  running := hrunning
  next := hnext
  steps := by
    have hsteps := h.steps
    rw [List.length_cons] at hsteps
    dsimp only
    omega
  popped := h.popped
  later := h.later
  going := h.going

theorem after_inside {l : List TaskPtr} {os : List (TaskPtr × SwapOut)} {k : TaskList}
    (hown : Scheduler.own p e = true) (hgoing : S.ended = false)
    (hfront : (t.processers_ p).pc ≠ .front) (hin : S.scheduler.swapsIn p e = l)
    (hout : S.scheduler.swapsOut p e = os) (htakes : S.scheduler.takes p e = k) :
    S.after p e t =
      { S with
        scheduler := t
        swapped := S.swapped ++ l
        late := S.late ++ l.filter fun tk => tk ∈ S.created
        outcomes := S.outcomes ++ os
        popped := S.popped ++ k
        steps := S.steps + 1 } := by
  rw [after_own hown, hin, hout, htakes, decide_eq_false hfront, ← hgoing]

theorem after_plain (hown : Scheduler.own p e = true) (hgoing : S.ended = false)
    (hfront : (t.processers_ p).pc ≠ .front) (hin : S.scheduler.swapsIn p e = [])
    (hout : S.scheduler.swapsOut p e = []) (htakes : S.scheduler.takes p e = []) :
    S.after p e t = { S with scheduler := t, steps := S.steps + 1 } := by
  rw [after_inside hown hgoing hfront hin hout htakes]
  simp

theorem own_process : Scheduler.own p (.process p) = true := by
  simp [Scheduler.own]

theorem after_process (hpc : (S.scheduler.processers_ p).pc = pc) (hgoing : S.ended = false)
    (hloop : pc ≠ .loop) (hsuspended : ∀ tk, pc ≠ .suspended tk)
    (haddPop : ∀ idle, pc ≠ .addPop idle) (hfront : (t.processers_ p).pc ≠ .front) :
    S.after p (.process p) t = { S with scheduler := t, steps := S.steps + 1 } := by
  apply after_plain own_process hgoing hfront
  · simp [Scheduler.swapsIn, hpc, hloop]
  · unfold Scheduler.swapsOut
    cases pc <;> simp_all
  · unfold Scheduler.takes
    cases pc <;> simp_all

theorem At.kept_eq_nil (h : At q S x queue running next [] q rank) : S.kept = [] := by
  have hswapped : S.swapped = [] := List.self_eq_append_left.mp h.split
  have houtcomes : S.outcomes = [] := by
    have heq := h.outcomes
    rw [hswapped, List.append_nil] at heq
    exact List.map_eq_nil_iff.mp heq.symm
  rw [kept, houtcomes]
  rfl

theorem stage_front (h : At q S (S.scheduler.processers_ p) q
      (S.scheduler.processers_ p).runningTask_ none [] q 5)
    (hpc : (S.scheduler.processers_ p).pc = pc) (hpc' : pc = .front ∨ pc = .frontAgain)
    (hne : q ≠ []) (hs : S.scheduler.process p = some t) :
    Stage q (S.after p (.process p) t) (t.processers_ p) (t.processers_ p).pc := by
  obtain ⟨tk, rest, rfl⟩ := List.exists_cons_of_ne_nil hne
  have ht : t = S.scheduler.setProcesser p
      { S.scheduler.processers_ p with runningTask_ := some tk, pc := .loop } := by
    unfold Scheduler.process at hs
    rcases hpc' with rfl | rfl <;>
      simpa [hpc, h.queue, TaskQueue.front] using hs.symm
  subst ht
  rw [after_process hpc h.going]
  · rw [Scheduler.processers_setProcesser]
    apply Stage.loop
    refine h.move (by omega) ?_ rfl h.next
    show (S.scheduler.processers_ p).runnableQueue_ = _
    rw [h.queue]
    exact (congrArg (· ++ tk :: rest) h.kept_eq_nil).symm
  · rcases hpc' with rfl | rfl <;> exact ProcessPc.noConfusion
  · rcases hpc' with rfl | rfl <;> exact fun _ => ProcessPc.noConfusion
  · rcases hpc' with rfl | rfl <;> exact fun _ => ProcessPc.noConfusion
  · rw [Scheduler.processers_setProcesser]
    exact ProcessPc.noConfusion

theorem stage_loop {rest : TaskList} (h : At q S (S.scheduler.processers_ p) (S.kept ++ rest)
      rest.head? none [] rest 4) (hpc : (S.scheduler.processers_ p).pc = .loop)
    (hs : S.scheduler.process p = some t) :
    Stage q (S.after p (.process p) t) (t.processers_ p) (t.processers_ p).pc := by
  unfold Scheduler.process at hs
  simp only [hpc, h.running] at hs
  cases rest with
  | nil =>
      cases hs
      rw [after_plain own_process h.going]
      · rw [Scheduler.processers_setProcesser]
        have hqueue : (S.scheduler.processers_ p).runnableQueue_ = S.kept := by
          rw [h.queue, List.append_nil]
        exact .addEmpty (h.move (by omega) hqueue rfl h.next)
      · rw [Scheduler.processers_setProcesser]
        exact ProcessPc.noConfusion
      · simp [Scheduler.swapsIn, h.running]
      · simp [Scheduler.swapsOut, hpc]
      · simp [Scheduler.takes, hpc]
  | cons tk rest =>
      cases hs
      have hproc : (S.scheduler.swapIn p tk).processers_ p =
          { S.scheduler.processers_ p with pc := .exec tk } := Function.update_self ..
      have hin : S.scheduler.swapsIn p (.process p) = [tk] := by
        simp [Scheduler.swapsIn, hpc, h.running]
      have hout : S.scheduler.swapsOut p (.process p) = [] := by
        simp [Scheduler.swapsOut, hpc]
      have htakes : S.scheduler.takes p (.process p) = [] := by
        simp [Scheduler.takes, hpc]
      rw [after_inside own_process h.going (by rw [hproc]; exact ProcessPc.noConfusion) hin hout
        htakes, List.append_nil, List.append_nil, hproc]
      exact .exec (h.swapIn h.queue h.running h.next)

theorem kept_of_outcomes (h : T.outcomes = S.outcomes ++ [(tk, o)]) :
    T.kept = if o = .yielded then S.kept ++ [tk] else S.kept := by
  rw [kept, h, List.filter_append, List.map_append, kept]
  cases o <;> simp

/-- `SuspendBySelfIO` sets `nextTask_` before it takes the task out. -/
theorem stage_suspending (h : At q S (S.scheduler.processers_ p) (S.kept ++ tk :: rest) (some tk)
      none [tk] rest 8) (hpc : (S.scheduler.processers_ p).pc = .suspending tk)
    (hnodup : (S.scheduler.processers_ p).runnableQueue_.Nodup)
    (hs : S.scheduler.process p = some t) :
    Stage q (S.after p (.process p) t) (t.processers_ p) (t.processers_ p).pc := by
  simp only [Scheduler.process, hpc, Option.some.injEq] at hs
  have hproc : t.processers_ p =
      { S.scheduler.processers_ p with
        nextTask_ := rest.head?
        runnableQueue_ := S.kept ++ rest
        pc := .suspended tk } := by
    rw [h.queue] at hnodup
    rw [← hs, Scheduler.suspendErase, h.queue, next_of_split hnodup, erase_of_split hnodup]
    exact Function.update_self ..
  have hmem : tk ∈ t.suspended := hs ▸ List.mem_append_right _ (List.mem_singleton_self tk)
  rw [after_process hpc h.going (by simp) (by simp) (by simp) (by simp [hproc]), hproc]
  exact .suspended (h.move (by omega) rfl h.running rfl) hmem

theorem stage_suspended (h : At q S (S.scheduler.processers_ p) (S.kept ++ rest) (some tk)
      rest.head? [tk] rest 7) (hpc : (S.scheduler.processers_ p).pc = .suspended tk)
    (hmem : tk ∈ S.scheduler.suspended) (hs : S.scheduler.process p = some t) :
    Stage q (S.after p (.process p) t) (t.processers_ p) (t.processers_ p).pc := by
  simp only [Scheduler.process, hpc, Option.some.injEq] at hs
  subst hs
  have hin : S.scheduler.swapsIn p (.process p) = [] := by simp [Scheduler.swapsIn, hpc]
  have hout : S.scheduler.swapsOut p (.process p) = [(tk, .suspended)] := by
    simp [Scheduler.swapsOut, hpc]
  have htakes : S.scheduler.takes p (.process p) = [] := by simp [Scheduler.takes, hpc]
  rw [after_inside own_process h.going (by simp) hin hout htakes,
    Scheduler.processers_setProcesser]
  simp only [List.append_nil, List.filter_nil]
  refine .blocked (.inl rfl) (h.swapOut (by simp) ?_ h.running h.next) hmem
  rw [kept_of_outcomes rfl, if_neg SwapOut.noConfusion]
  exact h.queue

theorem process_branch (hat : (S.scheduler.processers_ p).pc = pc) (hpc : pc.SwappedOut)
    (hrunning : (S.scheduler.processers_ p).runningTask_ = some tk)
    (hs : S.scheduler.process p = some t) : t = S.scheduler.branch p tk := by
  cases pc <;> first | exact hpc.elim | simpa [Scheduler.process, hat, hrunning] using hs.symm

def branchOf : TaskState → ProcessPc
  | .block => .block
  | .runnable => .runnable
  | .done => .doneNext

theorem stage_switched {r : ProcessPc} (hpc : (S.scheduler.processers_ p).pc = .switched)
    (hrunning : (S.scheduler.processers_ p).runningTask_ = some tk) (hgoing : S.ended = false)
    (hs : S.scheduler.process p = some t)
    (hr : branchOf (S.scheduler.task tk).state_ = r) :
    S.after p (.process p) t = { S with scheduler := t, steps := S.steps + 1 } ∧
      t = S.scheduler.setProcesser p { S.scheduler.processers_ p with pc := r } := by
  have ht : t = S.scheduler.setProcesser p { S.scheduler.processers_ p with pc := r } := by
    rw [process_branch hpc trivial hrunning hs, Scheduler.branch, ← hr]
    simp only [hpc]
    cases (S.scheduler.task tk).state_ <;> rfl
  refine ⟨after_process hpc hgoing (by simp) (by simp) (by simp) ?_, ht⟩
  rw [ht, Scheduler.processers_setProcesser, ← hr]
  cases (S.scheduler.task tk).state_ <;> exact ProcessPc.noConfusion

theorem stage_blocked (h : At q S (S.scheduler.processers_ p) (S.kept ++ rest) (some tk)
      rest.head? [] rest (if pc = .block then 5 else 6)) (hpc : pc = .switched ∨ pc = .block)
    (hat : (S.scheduler.processers_ p).pc = pc) (hmem : tk ∈ S.scheduler.suspended)
    (hstate : (S.scheduler.task tk).state_ = .block) (hs : S.scheduler.process p = some t) :
    Stage q (S.after p (.process p) t) (t.processers_ p) (t.processers_ p).pc := by
  rcases hpc with rfl | rfl
  · obtain ⟨hafter, rfl⟩ := stage_switched hat h.running h.going hs (congrArg branchOf hstate)
    rw [hafter, Scheduler.processers_setProcesser, branchOf]
    exact .blocked (.inr rfl) (h.move (by simp) h.queue h.running h.next) hmem
  · have ht := process_branch hat trivial h.running hs
    simp only [Scheduler.branch, hat] at ht
    subst ht
    rw [after_process hat h.going (by simp) (by simp) (by simp) (by simp),
      Scheduler.processers_setProcesser]
    exact .loop (h.move (by simp) h.queue h.next rfl)

theorem stage_yielded {pre : TaskQueue} (h : At q S (S.scheduler.processers_ p) (pre ++ tk :: rest)
      (some tk) none [] rest (if pc = .runnable then 5 else 6))
    (hpc : pc = .switched ∨ pc = .runnable) (hat : (S.scheduler.processers_ p).pc = pc)
    (hkept : S.kept = pre ++ [tk]) (hstate : (S.scheduler.task tk).state_ = .runnable)
    (hnodup : (S.scheduler.processers_ p).runnableQueue_.Nodup)
    (hs : S.scheduler.process p = some t) :
    Stage q (S.after p (.process p) t) (t.processers_ p) (t.processers_ p).pc := by
  rcases hpc with rfl | rfl
  · obtain ⟨hafter, rfl⟩ := stage_switched hat h.running h.going hs (congrArg branchOf hstate)
    rw [hafter, Scheduler.processers_setProcesser, branchOf]
    exact .yielded (.inr rfl) hkept (h.move (by simp) h.queue h.running h.next) hstate
  · have ht := process_branch hat trivial h.running hs
    simp only [Scheduler.branch, hat] at ht
    subst ht
    rw [after_process hat h.going (by simp) (by simp) (by simp) (by simp),
      Scheduler.processers_setProcesser]
    rw [h.queue] at hnodup
    -- the tasks that have been visited now end with this one
    have hqueue : (S.scheduler.processers_ p).runnableQueue_ = S.kept ++ rest := by
      rw [h.queue, hkept, List.append_assoc]
      rfl
    refine .loop (h.move (by simp) hqueue ?_ h.next)
    dsimp only
    rw [h.queue, next_of_split hnodup]

theorem stage_done (h : At q S (S.scheduler.processers_ p) (S.kept ++ tk :: rest) (some tk) none []
      rest (if pc = .doneNext then 7 else 8)) (hpc : pc = .switched ∨ pc = .doneNext)
    (hat : (S.scheduler.processers_ p).pc = pc) (hstate : (S.scheduler.task tk).state_ = .done)
    (hnodup : (S.scheduler.processers_ p).runnableQueue_.Nodup)
    (hs : S.scheduler.process p = some t) :
    Stage q (S.after p (.process p) t) (t.processers_ p) (t.processers_ p).pc := by
  rcases hpc with rfl | rfl
  · obtain ⟨hafter, rfl⟩ := stage_switched hat h.running h.going hs (congrArg branchOf hstate)
    rw [hafter, Scheduler.processers_setProcesser, branchOf]
    exact .done (.inr rfl) (h.move (by simp) h.queue h.running h.next) hstate
  · have ht := process_branch hat trivial h.running hs
    simp only [Scheduler.branch, hat] at ht
    subst ht
    rw [after_process hat h.going (by simp) (by simp) (by simp) (by simp),
      Scheduler.processers_setProcesser]
    rw [h.queue] at hnodup
    refine .doneErase (h.move (by simp) h.queue h.running ?_)
    dsimp only
    rw [h.queue, next_of_split hnodup]

theorem stage_doneErase (h : At q S (S.scheduler.processers_ p) (S.kept ++ tk :: rest) (some tk)
      rest.head? [] rest 6) (hpc : (S.scheduler.processers_ p).pc = .doneErase)
    (hnodup : (S.scheduler.processers_ p).runnableQueue_.Nodup)
    (hs : S.scheduler.process p = some t) :
    Stage q (S.after p (.process p) t) (t.processers_ p) (t.processers_ p).pc := by
  have ht := process_branch hpc trivial h.running hs
  simp only [Scheduler.branch, hpc] at ht
  subst ht
  rw [after_process hpc h.going (by simp) (by simp) (by simp) (by simp),
    Scheduler.processers_setProcesser]
  rw [h.queue] at hnodup
  refine .doneAdvance (h.move (by omega) ?_ h.running h.next)
  dsimp only
  rw [h.queue, erase_of_split hnodup]
  rfl

theorem stage_doneAdvance (h : At q S (S.scheduler.processers_ p) (S.kept ++ rest) (some tk)
      rest.head? [] rest 5) (hpc : (S.scheduler.processers_ p).pc = .doneAdvance)
    (hs : S.scheduler.process p = some t) :
    Stage q (S.after p (.process p) t) (t.processers_ p) (t.processers_ p).pc := by
  have ht := process_branch hpc trivial h.running hs
  simp only [Scheduler.branch, hpc] at ht
  subst ht
  rw [after_process hpc h.going (by simp) (by simp) (by simp) (by simp),
    Scheduler.processers_setProcesser]
  exact .loop (h.move (by omega) h.queue h.next rfl)

/-- What `AddNewTasks` has taken is kept apart. -/
theorem At.emptied (h : At q S x queue running next inside rest rank) :
    At q { S with popped := [], later := [] } x queue running next inside rest rank :=
  ⟨h.split, h.outcomes, h.queue, h.running, h.next, h.steps, rfl, rfl, h.going⟩

theorem At.close (h : At q { S with popped := [], later := [] } x queue running next inside rest
      rank) (hrank : 0 < rank) (hqueue : y.runnableQueue_ = queue')
    (hrunning : y.runningTask_ = running) (hnext : y.nextTask_ = next) :
    At q { S with
      scheduler := t, steps := S.steps + 1, popped := [], later := [], ended := false } y queue'
      running next inside rest 0 where
  split := h.split
  outcomes := h.outcomes
  queue := hqueue
  running := hrunning
  next := hnext
  steps := by
    have hsteps := h.steps
    dsimp only at hsteps ⊢
    omega
  popped := rfl
  later := rfl
  going := rfl

theorem stage_addEmpty (h : At q S (S.scheduler.processers_ p) S.kept none none [] [] 3)
    (hpc : (S.scheduler.processers_ p).pc = .addEmpty false)
    (hs : S.scheduler.process p = some t) :
    Stage q (S.after p (.process p) t) (t.processers_ p) (t.processers_ p).pc := by
  simp only [Scheduler.process, hpc, Option.some.injEq] at hs
  subst hs
  have hin : S.scheduler.swapsIn p (.process p) = [] := by simp [Scheduler.swapsIn, hpc]
  have hout : S.scheduler.swapsOut p (.process p) = [] := by simp [Scheduler.swapsOut, hpc]
  have htakes : S.scheduler.takes p (.process p) = [] := by simp [Scheduler.takes, hpc]
  cases hempty : (S.scheduler.processers_ p).newQueue_.isEmpty with
  | true =>
      simp only [if_true, Bool.false_eq_true, if_false]
      rw [after_own own_process, hin, hout, htakes, Scheduler.processers_setProcesser]
      simp only [List.append_nil, List.filter_nil, decide_true]
      refine .ended (h.emptied.close (by omega) ?_ h.running h.next) ?_ rfl
      · show (S.scheduler.processers_ p).runnableQueue_ = S.kept ++ S.popped
        rw [h.queue, h.popped, List.append_nil]
      · exact (List.isEmpty_iff.mp hempty).trans h.later.symm
  | false =>
      simp only [Bool.false_eq_true, if_false]
      rw [after_plain own_process h.going (by simp) hin hout htakes,
        Scheduler.processers_setProcesser]
      exact .addPop (h.move (by omega) h.queue h.running h.next)

theorem stage_addPop (h : At q S (S.scheduler.processers_ p) S.kept none none [] [] 2)
    (hpc : (S.scheduler.processers_ p).pc = .addPop false)
    (hs : S.scheduler.process p = some t) :
    Stage q (S.after p (.process p) t) (t.processers_ p) (t.processers_ p).pc := by
  simp only [Scheduler.process, hpc, Option.some.injEq] at hs
  subst hs
  have hin : S.scheduler.swapsIn p (.process p) = [] := by simp [Scheduler.swapsIn, hpc]
  have hout : S.scheduler.swapsOut p (.process p) = [] := by simp [Scheduler.swapsOut, hpc]
  have htakes : S.scheduler.takes p (.process p) = (S.scheduler.processers_ p).newQueue_ := by
    simp [Scheduler.takes, hpc]
  rw [after_inside own_process h.going (by simp) hin hout htakes,
    Scheduler.processers_setProcesser]
  simp only [List.append_nil, List.filter_nil, h.popped, List.nil_append]
  exact .addPush (h.emptied.move (by omega) h.queue h.running h.next) rfl h.later.symm

theorem stage_addPush {elements : TaskList}
    (h : At q { S with popped := [], later := [] } (S.scheduler.processers_ p) S.kept none none []
      [] 1) (hpc : (S.scheduler.processers_ p).pc = .addPush false elements)
    (hpopped : S.popped = elements) (hlater : (S.scheduler.processers_ p).newQueue_ = S.later)
    (hs : S.scheduler.process p = some t) :
    Stage q (S.after p (.process p) t) (t.processers_ p) (t.processers_ p).pc := by
  simp only [Scheduler.process, hpc, Option.some.injEq] at hs
  subst hs
  have hin : S.scheduler.swapsIn p (.process p) = [] := by simp [Scheduler.swapsIn, hpc]
  have hout : S.scheduler.swapsOut p (.process p) = [] := by simp [Scheduler.swapsOut, hpc]
  have htakes : S.scheduler.takes p (.process p) = [] := by simp [Scheduler.takes, hpc]
  rw [after_own own_process, hin, hout, htakes, Scheduler.processers_setProcesser]
  simp only [Bool.false_eq_true, if_false, List.append_nil, List.filter_nil, decide_true]
  refine .ended (h.close (by omega) ?_ h.running h.next) hlater rfl
  show (S.scheduler.processers_ p).runnableQueue_ ++ elements = S.kept ++ S.popped
  rw [h.queue, hpopped]

theorem Inv.process (h : Inv p q new S) (hgoing : S.ended = false)
    (hs : S.scheduler.process p = some t) :
    Stage q (S.after p (.process p) t) (t.processers_ p) (t.processers_ p).pc := by
  have hnodup : (S.scheduler.processers_ p).runnableQueue_.Nodup := h.coherent.tidy.nodup_queue
  have hstage := h.stage
  generalize hpc : (S.scheduler.processers_ p).pc = pc at hstage
  cases hstage with
  | front hpc' hne hat => exact stage_front hat hpc hpc' hne hs
  | loop hat => exact stage_loop hat hpc hs
  | exec hat =>
      simp only [Scheduler.process, hpc] at hs
      cases hs
  | suspending hat => exact stage_suspending hat hpc hnodup hs
  | suspended hat hmem => exact stage_suspended hat hpc hmem hs
  | blocked hpc' hat hmem =>
      exact stage_blocked hat hpc' hpc hmem (h.coherent.suspended _ hmem).1 hs
  | yielded hpc' hkept hat hstate => exact stage_yielded hat hpc' hpc hkept hstate hnodup hs
  | done hpc' hat hstate => exact stage_done hat hpc' hpc hstate hnodup hs
  | doneErase hat => exact stage_doneErase hat hpc hnodup hs
  | doneAdvance hat => exact stage_doneAdvance hat hpc hs
  | addEmpty hat => exact stage_addEmpty hat hpc hs
  | addPop hat => exact stage_addPop hat hpc hs
  | addPush hat hpopped hlater => exact stage_addPush hat hpc hpopped hlater hs
  | ended _ _ hended =>
      rw [hgoing] at hended
      cases hended

theorem Stage.of_exec (h : Stage q S x (.exec tk)) :
    ∃ rest, At q S x (S.kept ++ tk :: rest) (some tk) none [tk] rest 9 := by
  generalize hpc : ProcessPc.exec tk = pc at h
  cases h with
  | exec hat =>
      cases hpc
      exact ⟨_, hat⟩
  | front hpc' _ _ | blocked hpc' _ _ | yielded hpc' _ _ _ | done hpc' _ _ =>
      rcases hpc' with rfl | rfl <;> cases hpc
  | loop _ | suspending _ | suspended _ _ | doneErase _ | doneAdvance _ | addEmpty _ | addPop _
  | addPush _ _ _ | ended _ _ _ => cases hpc

theorem Inv.yield (h : Inv p q new S) (hpc : (S.scheduler.processers_ p).pc = .exec tk)
    (ht : t = S.scheduler.setProcesser p
      { S.scheduler.processers_ p with pc := .switched }) :
    Stage q (S.after p (.yield p) t) (t.processers_ p) (t.processers_ p).pc := by
  obtain ⟨rest, hat⟩ := (hpc ▸ h.stage).of_exec
  subst ht
  have hout : S.scheduler.swapsOut p (.yield p) = [(tk, .yielded)] := by
    simp [Scheduler.swapsOut, hat.running]
  rw [after_inside (by simp [Scheduler.own]) hat.going (by simp) rfl hout rfl,
    Scheduler.processers_setProcesser]
  simp only [Scheduler.swapsIn, Scheduler.takes, List.append_nil, List.filter_nil]
  refine .yielded (.inl rfl) ((kept_of_outcomes rfl).trans (if_pos rfl))
    (hat.swapOut (by simp) hat.queue hat.running hat.next) ?_
  exact (h.coherent.exec hpc).2.2.1

theorem Inv.finish (h : Inv p q new S) (hpc : (S.scheduler.processers_ p).pc = .exec tk)
    (ht : t = S.scheduler.finish p tk) :
    Stage q (S.after p (.finish p) t) (t.processers_ p) (t.processers_ p).pc := by
  obtain ⟨rest, hat⟩ := (hpc ▸ h.stage).of_exec
  subst ht
  have hproc : (S.scheduler.finish p tk).processers_ p =
      { S.scheduler.processers_ p with pc := .switched } := Function.update_self ..
  have hout : S.scheduler.swapsOut p (.finish p) = [(tk, .done)] := by
    simp [Scheduler.swapsOut, hat.running]
  rw [after_inside (by simp [Scheduler.own]) hat.going (by simp [hproc]) rfl hout rfl, hproc]
  simp only [Scheduler.swapsIn, Scheduler.takes, List.append_nil, List.filter_nil]
  refine .done (.inl rfl) (hat.swapOut (by simp) ?_ hat.running hat.next) (by simp [Scheduler.finish])
  rw [kept_of_outcomes rfl, if_neg SwapOut.noConfusion]
  exact hat.queue

theorem Inv.suspend (h : Inv p q new S) (hpc : (S.scheduler.processers_ p).pc = .exec tk)
    (ht : t = S.scheduler.suspendBySelfIo p tk) :
    Stage q (S.after p (.suspendBySelfIo p) t) (t.processers_ p) (t.processers_ p).pc := by
  obtain ⟨rest, hat⟩ := (hpc ▸ h.stage).of_exec
  subst ht
  have hproc : (S.scheduler.suspendBySelfIo p tk).processers_ p =
      { S.scheduler.processers_ p with pc := .suspending tk } := Function.update_self ..
  rw [after_plain (by simp [Scheduler.own]) hat.going (by simp [hproc]) rfl rfl rfl, hproc]
  exact .suspending (hat.move (by omega) hat.queue hat.running hat.next)

theorem Stage.of_suspended (h : Stage q S x (.suspended tk)) : tk ∈ S.scheduler.suspended := by
  generalize hpc : ProcessPc.suspended tk = pc at h
  cases h with
  | suspended _ hmem =>
      cases hpc
      exact hmem
  | front hpc' _ _ | blocked hpc' _ _ | yielded hpc' _ _ _ | done hpc' _ _ =>
      rcases hpc' with rfl | rfl <;> cases hpc
  | loop _ | exec _ | suspending _ | doneErase _ | doneAdvance _ | addEmpty _ | addPop _
  | addPush _ _ _ | ended _ _ _ => cases hpc

theorem Inv.own (h : Inv p q new S) (hgoing : S.ended = false) (hown : Scheduler.own p e = true)
    (hs : S.scheduler.step e = some t) :
    Stage q (S.after p e t) (t.processers_ p) (t.processers_ p).pc := by
  cases Scheduler.stepped hs with
  | @process p' _ hp hs =>
      obtain rfl : p' = p := by simpa [Scheduler.own] using hown
      exact h.process hgoing hs
  | @yield p' tk hpc =>
      obtain rfl : p' = p := by simpa [Scheduler.own] using hown
      exact h.yield hpc rfl
  | @suspendBySelfIo p' tk hpc =>
      obtain rfl : p' = p := by simpa [Scheduler.own] using hown
      exact h.suspend hpc rfl
  | @runOn p' tk hpc hback =>
      obtain rfl : p' = p := by simpa [Scheduler.own] using hown
      exact absurd (hpc ▸ h.stage).of_suspended hback.1
  | @finish p' tk hpc =>
      obtain rfl : p' = p := by simpa [Scheduler.own] using hown
      exact h.finish hpc rfl
  | newProcessThread | createTask | addTask | wakeupBySelfIo | wakeupPush | avgTotalTasks =>
      cases hown

end Own

section Ghosts

variable {tk : TaskPtr} {pc : ProcessPc} {s : Scheduler}

/-- The tasks of `q` that have not been swapped in are still in the queue. -/
theorem Stage.unvisited (h : Stage q S x pc) (hmem : tk ∈ q) :
    tk ∈ S.swapped ∨ tk ∈ x.runnableQueue_ := by
  have hrest : ∀ {queue rest : TaskQueue}, q = S.swapped ++ rest → x.runnableQueue_ = queue →
      rest ⊆ queue → tk ∈ S.swapped ∨ tk ∈ x.runnableQueue_ := by
    intro queue rest hsplit hqueue hsub
    rw [hsplit, List.mem_append] at hmem
    rw [hqueue]
    exact hmem.imp_right (hsub ·)
  cases h with
  | front _ _ hat => exact hrest hat.split hat.queue (List.Subset.refl _)
  | loop hat | suspended hat _ | blocked _ hat _ | doneAdvance hat =>
      exact hrest hat.split hat.queue (List.subset_append_right _ _)
  | exec hat | suspending hat | yielded _ _ hat _ | done _ hat _ | doneErase hat =>
      exact hrest hat.split hat.queue fun _ hmem =>
        List.mem_append_right _ (List.mem_cons_of_mem _ hmem)
  | addEmpty hat | addPop hat | addPush hat _ _ | ended hat _ _ =>
      exact hrest hat.split hat.queue (List.nil_subset _)

theorem not_queued_of_creates (h : s.Coherent) (htk : tk ∈ s.creates e) :
    tk ∉ (s.processers_ p).runnableQueue_ := by
  intro hmem
  have hhere : tk ∈ s.contents (.processer p .runnable) := hmem
  cases e with
  | createTask n =>
      rw [Scheduler.creates, List.mem_singleton] at htk
      unfold Scheduler.getFreeTaskList at htk
      split at htk
      · rename_i itr hitr
        rw [Option.getD_some] at htk
        apply h.tidy.not_shared (q := .runnable) (g := .free) hmem
        rw [htk]
        exact List.mem_map_of_mem (Multimap.mem_of_lowerBound hitr)
      · rw [Option.getD_none] at htk
        have hlt : tk < s.allocated := (h.tidy.mem_iff tk).mpr ⟨_, hhere⟩
        exact absurd htk hlt.ne
  | _ => cases htk

theorem Inv.fresh_step (h : Inv p q new S) (hmem : tk ∈ (S.after p e t).created) (hq : tk ∈ q) :
    tk ∈ (S.after p e t).swapped := by
  apply List.mem_append_left
  rcases List.mem_append.mp hmem with hmem | hmem
  · exact h.fresh tk hmem hq
  · exact (h.stage.unvisited hq).resolve_right (not_queued_of_creates h.coherent hmem)

/-- The task that is swapped in has not been swapped in before. -/
theorem Stage.of_loop (h : Stage q S x .loop) :
    ∃ rest, At q S x (S.kept ++ rest) rest.head? none [] rest 4 := by
  generalize hpc : ProcessPc.loop = pc at h
  cases h with
  | loop hat => exact ⟨_, hat⟩
  | front hpc' _ _ | blocked hpc' _ _ | yielded hpc' _ _ _ | done hpc' _ _ =>
      rcases hpc' with rfl | rfl <;> cases hpc
  | exec _ | suspending _ | suspended _ _ | doneErase _ | doneAdvance _ | addEmpty _ | addPop _
  | addPush _ _ _ | ended _ _ _ => cases hpc

theorem Inv.late_step (h : Inv p q new S) : (S.after p e t).late = [] := by
  show S.late ++ (S.scheduler.swapsIn p e).filter (fun tk => tk ∈ S.created) = []
  rw [h.late, List.nil_append, List.filter_eq_nil_iff]
  intro tk htk hcreated
  have hcreated : tk ∈ S.created := of_decide_eq_true hcreated
  cases e with
  | process p' =>
      simp only [Scheduler.swapsIn, List.mem_ite_nil_right, Option.mem_toList] at htk
      obtain ⟨⟨-, hpc⟩, hrunning⟩ := htk
      obtain ⟨rest, hat⟩ := (hpc ▸ h.stage).of_loop
      rw [hat.running] at hrunning
      obtain ⟨rest, rfl⟩ := List.head?_eq_some_iff.mp hrunning
      have hnodup := h.nodup
      rw [hat.split] at hnodup
      have hswapped : tk ∈ S.swapped := by
        apply h.fresh tk hcreated
        rw [hat.split]
        exact List.mem_append_right _ List.mem_cons_self
      exact (List.nodup_append.mp hnodup).2.2 tk hswapped tk List.mem_cons_self rfl
  | _ => cases htk

theorem local_of_own (hown : Scheduler.own p e = true) (hs : s.step e = some t) :
    Scheduler.Local p s t := by
  cases Scheduler.stepped hs with
  | @process p' _ hp hs =>
      obtain rfl : p' = p := by simpa [Scheduler.own] using hown
      exact Scheduler.local_process hs
  | @yield p' | @runOn p' =>
      obtain rfl : p' = p := by simpa [Scheduler.own] using hown
      exact Scheduler.local_setProcesser
  | @suspendBySelfIo p' =>
      obtain rfl : p' = p := by simpa [Scheduler.own] using hown
      exact Scheduler.local_suspendBySelfIo
  | @finish p' =>
      obtain rfl : p' = p := by simpa [Scheduler.own] using hown
      exact Scheduler.local_finish
  | newProcessThread | createTask | addTask | wakeupBySelfIo | wakeupPush | avgTotalTasks =>
      cases hown

theorem newQueue_of_update (h : t.processers_ = Function.update s.processers_ p x)
    (hx : x.newQueue_ = (s.processers_ p).newQueue_) :
    (t.processers_ p).newQueue_ = (s.processers_ p).newQueue_ := by
  rw [h, Function.update_self, hx]

theorem newQueue_branch :
    ((s.branch p tk).processers_ p).newQueue_ = (s.processers_ p).newQueue_ := by
  unfold Scheduler.branch
  simp only
  split
  case h_7 => rfl
  all_goals rw [Scheduler.processers_setProcesser]

theorem takes_append_process (hs : s.process p = some t) :
    s.takes p (.process p) ++ (t.processers_ p).newQueue_ = (s.processers_ p).newQueue_ := by
  cases hpc : (s.processers_ p).pc with
  | addPop idle =>
      simp only [Scheduler.process, hpc, Option.some.injEq] at hs
      subst hs
      simp [Scheduler.takes, hpc, TaskQueue.popAllWithoutLock]
  | exec tk =>
      simp only [Scheduler.process, hpc] at hs
      cases hs
  | loop =>
      simp only [Scheduler.process, hpc] at hs
      simp only [Scheduler.takes, hpc, List.nil_append]
      split at hs <;> cases hs
      · exact newQueue_of_update rfl rfl
      · rw [Scheduler.processers_setProcesser]
  | suspending tk =>
      simp only [Scheduler.process, hpc, Option.some.injEq] at hs
      subst hs
      simp only [Scheduler.takes, hpc, List.nil_append]
      exact newQueue_of_update rfl rfl
  | switched | block | runnable | doneNext | doneErase | doneAdvance =>
      simp only [Scheduler.process, hpc] at hs
      simp only [Scheduler.takes, hpc, List.nil_append]
      split at hs <;> cases hs
      · exact newQueue_branch
      · rfl
  | front | addEmpty idle | addPush idle elements | frontAgain | waitLoop | suspended tk =>
      simp only [Scheduler.process, hpc, Option.some.injEq] at hs
      subst hs
      simp only [Scheduler.takes, hpc, List.nil_append, Scheduler.processers_setProcesser]

/-- Of the steps of the thread only `pop_all` changes `newQueue_`. -/
theorem takes_append (hown : Scheduler.own p e = true) (hs : s.step e = some t) :
    s.takes p e ++ (t.processers_ p).newQueue_ = (s.processers_ p).newQueue_ := by
  cases Scheduler.stepped hs with
  | @process p' _ hp hs =>
      obtain rfl : p' = p := by simpa [Scheduler.own] using hown
      exact takes_append_process hs
  | @yield p' | @suspendBySelfIo p' | @runOn p' | @finish p' =>
      obtain rfl : p' = p := by simpa [Scheduler.own] using hown
      exact newQueue_of_update rfl rfl
  | newProcessThread | createTask | addTask | wakeupBySelfIo | wakeupPush | avgTotalTasks =>
      cases hown

end Ghosts

theorem after_beside (hown : Scheduler.own p e = false) :
    S.after p e t =
      { S with
        scheduler := t
        created := S.created ++ S.scheduler.creates e
        added := S.added ++
          if (S.scheduler.processers_ p).pc.looked then [] else S.scheduler.gives p e
        later := S.later ++
          if (S.scheduler.processers_ p).pc.looked then S.scheduler.gives p e else []
        ended := false } := by
  cases e with
  | process p' | yield p' | suspendBySelfIo p' | runOn p' | finish p' =>
      have hp : p' ≠ p := by simpa [Scheduler.own] using hown
      have htakes : S.scheduler.takes p (.process p') = [] := by
        unfold Scheduler.takes
        simp only
        split <;> simp [hp]
      have hout : S.scheduler.swapsOut p (.process p') = [] := by
        unfold Scheduler.swapsOut
        simp only
        split <;> simp [hp]
      simp_all [after, Scheduler.swapsIn, Scheduler.swapsOut, Scheduler.takes, Scheduler.own]
  | newProcessThread | createTask _ | addTask _ | wakeupBySelfIo _ | wakeupPush _
  | avgTotalTasks =>
      simp [after, Scheduler.swapsIn, Scheduler.swapsOut, Scheduler.takes, Scheduler.own]

theorem home_of_suspended {s : Scheduler} {tk : TaskPtr} (h : s.Coherent)
    (hrun : (s.processers_ p).runningTask_ = some tk) (hmem : tk ∈ s.suspended) :
    (s.task tk).proc_ = some p := by
  have hqueue : tk ∉ (s.processers_ p).runnableQueue_ := fun hqueue =>
    h.tidy.not_shared (q := .runnable) (g := .suspended) hqueue hmem
  have hphase := h.phase p
  have hfinished : (s.processers_ p).pc ≠ .doneAdvance := by
    intro hpc
    apply h.tidy.not_shared (p := p) (q := .finished) (g := .suspended) ?_ hmem
    rw [Processer.held, if_pos hpc, hrun]
    exact List.mem_singleton_self tk
  rw [hrun] at hphase
  generalize (s.processers_ p).pc = pc at hphase hfinished
  cases hphase with
  | picked hmem => exact absurd (hmem tk rfl) hqueue
  | exec hmem _ hhome | suspending hmem _ hhome => exact hhome
  | leaving _ hhome _ => exact hhome
  | ended _ hmem _ | erasing hmem _ _ => exact absurd hmem hqueue
  | erased _ => exact absurd rfl hfinished

theorem Stage.later_eq_nil {pc : ProcessPc} (h : Stage q S x pc) (hlooked : pc.looked = false)
    (hgoing : S.ended = false) : S.later = [] := by
  cases h with
  | front _ _ hat | blocked _ hat _ | yielded _ _ hat _ | done _ hat _ => exact hat.later
  | loop hat | exec hat | suspending hat | suspended hat _ | doneErase hat | doneAdvance hat
  | addEmpty hat | addPop hat => exact hat.later
  | addPush _ _ _ => cases hlooked
  | ended _ _ hended =>
      rw [hgoing] at hended
      cases hended

theorem Inv.step (h : Inv p q new S) (hspares : S.Undisturbed p e) (hs : S.step p e = some T) :
    Inv p q new T := by
  simp only [LoopPass.step] at hs
  split_ifs at hs with hended
  have hgoing : S.ended = false := by simpa using hended
  obtain ⟨t, ht, rfl⟩ := Option.map_eq_some_iff.mp hs
  have hcoherent := h.coherent.step ht
  cases hown : Scheduler.own p e with
  | true =>
      have hlocal := local_of_own hown ht
      refine ⟨hcoherent, hlocal.size ▸ h.size, h.nodup, h.own hgoing hown ht, ?_,
        fun tk hmem hq => h.fresh_step hmem hq, h.late_step⟩
      rw [after_own hown]
      dsimp only
      rw [List.append_assoc, takes_append hown ht]
      exact h.fifo
  | false =>
      have hbeside := Scheduler.step_beside h.coherent ht hown hspares
      refine ⟨hcoherent, h.size.trans_le hbeside.size, h.nodup, ?_, ?_,
        fun tk hmem hq => h.fresh_step hmem hq, h.late_step⟩
      · rw [after_beside hown, ← hgoing]
        dsimp only
        rw [hbeside.processer]
        exact h.stage.beside hgoing hbeside.task fun tk hrun hmem =>
          hbeside.suspended tk hmem (home_of_suspended h.coherent hrun hmem)
      · rw [after_beside hown]
        dsimp only
        rw [hbeside.processer]
        dsimp only
        rw [← List.append_assoc, h.fifo]
        cases hlooked : (S.scheduler.processers_ p).pc.looked with
        | true => simp
        | false => simp [h.stage.later_eq_nil hlooked hgoing]

/-! ## The contract -/

/-- A pass over `q`, with `new` in `newQueue_` at its start: the tasks of `q` are swapped in, in
order and each once, and nothing that is created meanwhile is.  The thread takes a bounded
number of steps and is never stuck.  At the end, `runnableQueue_` holds the tasks that have
yielded and behind them what has been added to `newQueue_`. -/
structure Runs (p : Nat) (q new : TaskList) (S : LoopPass) : Prop where
  inOrder : S.swapped <+: q
  once : S.swapped.Nodup
  late : S.late = []
  bounded : S.steps ≤ 6 * q.length + 5
  goesOn : S.ended = false →
    ∃ e, Scheduler.own p e = true ∧ S.Undisturbed p e ∧ (S.step p e).isSome = true
  swapped : S.ended = true → S.swapped = q
  outcomes : S.ended = true → S.outcomes.map Prod.fst = q
  queue : S.ended = true →
    (S.scheduler.processers_ p).runnableQueue_ = S.kept ++ (new ++ S.added)
  newQueue : S.ended = true → (S.scheduler.processers_ p).newQueue_ = S.later
  running : S.ended = true → (S.scheduler.processers_ p).runningTask_ = none
  next : S.ended = true → (S.scheduler.processers_ p).nextTask_ = none

theorem process_isSome {s : Scheduler} (hexec : ∀ tk, (s.processers_ p).pc ≠ .exec tk) :
    (s.process p).isSome = true := by
  unfold Scheduler.process
  simp only
  split
  case h_8 tk hpc => exact absurd hpc (hexec tk)
  case h_7 => split <;> rfl
  case h_11 => split <;> rfl
  all_goals rfl

theorem Inv.goesOn (h : Inv p q new S) (hgoing : S.ended = false) :
    ∃ e, Scheduler.own p e = true ∧ S.Undisturbed p e ∧ (S.step p e).isSome = true := by
  by_cases hexec : ∃ tk, (S.scheduler.processers_ p).pc = .exec tk
  · obtain ⟨tk, hpc⟩ := hexec
    refine ⟨.yield p, by simp [Scheduler.own], trivial, ?_⟩
    simp [LoopPass.step, hgoing, Scheduler.step, hpc]
  · refine ⟨.process p, own_process, trivial, ?_⟩
    simp only [LoopPass.step, hgoing, Scheduler.step, h.size, Bool.false_eq_true, if_false, if_true,
      Option.isSome_map]
    exact process_isSome fun tk hpc => hexec ⟨tk, hpc⟩

theorem At.steps_le {queue : TaskQueue} {running next : Option TaskPtr} {inside rest : TaskList}
    {rank : Nat} (h : At q S x queue running next inside rest rank) :
    S.steps ≤ 6 * q.length + 5 := by
  have hsteps := h.steps
  omega

theorem At.inOrder {queue : TaskQueue} {running next : Option TaskPtr} {inside rest : TaskList}
    {rank : Nat} (h : At q S x queue running next inside rest rank) : S.swapped <+: q :=
  ⟨rest, h.split.symm⟩

theorem Stage.bounded {pc : ProcessPc} (h : Stage q S x pc) :
    S.swapped <+: q ∧ S.steps ≤ 6 * q.length + 5 := by
  cases h with
  | front _ _ hat | blocked _ hat _ | yielded _ _ hat _ | done _ hat _ =>
      exact ⟨hat.inOrder, hat.steps_le⟩
  | loop hat | exec hat | suspending hat | suspended hat _ | doneErase hat | doneAdvance hat
  | addEmpty hat | addPop hat => exact ⟨hat.inOrder, hat.steps_le⟩
  | addPush hat _ _ | ended hat _ _ => exact ⟨hat.inOrder, hat.steps_le⟩

theorem Stage.of_ended {pc : ProcessPc} (h : Stage q S x pc) (hended : S.ended = true) :
    At q { S with popped := [], later := [], ended := false } x (S.kept ++ S.popped) none none [] []
      0 ∧ x.newQueue_ = S.later := by
  have hgoing : S.ended ≠ false := by simp [hended]
  cases h with
  | front _ _ hat | blocked _ hat _ | yielded _ _ hat _ | done _ hat _ =>
      exact absurd hat.going hgoing
  | loop hat | exec hat | suspending hat | suspended hat _ | doneErase hat | doneAdvance hat
  | addEmpty hat | addPop hat => exact absurd hat.going hgoing
  | addPush hat _ _ => exact absurd hat.going hgoing
  | ended hat hlater _ => exact ⟨hat, hlater⟩

theorem Inv.runs (h : Inv p q new S) : S.Runs p q new := by
  obtain ⟨hinOrder, hsteps⟩ := h.stage.bounded
  have hend := fun hended => h.stage.of_ended hended
  have hswapped : S.ended = true → S.swapped = q := fun hended => by
    have hsplit := (hend hended).1.split
    rw [List.append_nil] at hsplit
    exact hsplit.symm
  refine
    { inOrder := hinOrder
      once := h.nodup.sublist hinOrder.sublist
      late := h.late
      bounded := hsteps
      goesOn := h.goesOn
      swapped := hswapped
      outcomes := fun hended => ?_
      queue := fun hended => ?_
      newQueue := fun hended => (hend hended).2
      running := fun hended => (hend hended).1.running
      next := fun hended => (hend hended).1.next }
  · have houtcomes := (hend hended).1.outcomes
    rw [List.append_nil] at houtcomes
    exact houtcomes.symm.trans (hswapped hended)
  · have hfifo := h.fifo
    rw [(hend hended).2] at hfifo
    rw [(hend hended).1.queue, List.append_cancel_right hfifo]

theorem Inv.start {s : Scheduler} (h : s.Coherent) (hp : p < s.size)
    (hpc : (s.processers_ p).pc = .front ∨ (s.processers_ p).pc = .frontAgain)
    (hne : (s.processers_ p).runnableQueue_ ≠ []) (hnext : (s.processers_ p).nextTask_ = none) :
    Inv p (s.processers_ p).runnableQueue_ (s.processers_ p).newQueue_ (start s) where
  coherent := h
  size := hp
  nodup := h.tidy.nodup_queue
  stage := .front hpc hne
    { split := rfl
      outcomes := rfl
      queue := rfl
      running := rfl
      next := hnext
      steps := by simp [LoopPass.start]
      popped := rfl
      later := rfl
      going := rfl }
  fifo := by simp [LoopPass.start]
  fresh := nofun
  late := rfl

/-- A pass that no wake-up and no `Steal` disturbs runs every queued task exactly once. -/
theorem runs_of_reach {s : Scheduler} (hs : Reach Scheduler.step Free Scheduler.make s)
    (hp : p < s.size)
    (hpc : (s.processers_ p).pc = .front ∨ (s.processers_ p).pc = .frontAgain)
    (hne : (s.processers_ p).runnableQueue_ ≠ []) (hnext : (s.processers_ p).nextTask_ = none)
    (h : Reach (LoopPass.step p) (Undisturbed p) (LoopPass.start s) S) :
    S.Runs p (s.processers_ p).runnableQueue_ (s.processers_ p).newQueue_ := by
  have hcoherent : s.Coherent :=
    hs.invariant Scheduler.coherent_make fun _ _ _ hc _ hstep => hc.step hstep
  have hinv : Inv p (s.processers_ p).runnableQueue_ (s.processers_ p).newQueue_ S :=
    h.invariant (.start hcoherent hp hpc hne hnext) fun _ _ _ hi hspares hstep =>
      hi.step hspares hstep
  exact hinv.runs

/-- Three tasks are created, and `AddNewTasks` has put them into `runnableQueue_`. -/
def threeQueued : List SchedulerStep :=
  List.flatten
    [.replicate 3 (.createTask 8192), .replicate 3 (.addTask 0), .replicate 4 (.process 0)]

/-- The first task creates another one and yields, the second suspends itself, and the third
ends. -/
def onePass : List SchedulerStep :=
  List.flatten
    [.replicate 2 (.process 0), [.createTask 8192, .addTask 0, .yield 0],
     .replicate 3 (.process 0), [.suspendBySelfIo 0], .replicate 5 (.process 0), [.finish 0],
     .replicate 8 (.process 0)]

theorem runs_threeQueued :
    ∃ s S, run Scheduler.step Free Scheduler.make threeQueued = some s ∧
      run (LoopPass.step 0) (Undisturbed 0) (LoopPass.start s) onePass = some S ∧ S.ended = true ∧
      S.Runs 0 (s.processers_ 0).runnableQueue_ (s.processers_ 0).newQueue_ := by
  have hrun : ∃ s, run Scheduler.step Free Scheduler.make threeQueued = some s ∧
      (((s.processers_ 0).pc = .frontAgain ∧ 0 < s.size) ∧
        (s.processers_ 0).runnableQueue_ = [0, 1, 2] ∧ (s.processers_ 0).nextTask_ = none) ∧
      (run (LoopPass.step 0) (Undisturbed 0) (LoopPass.start s) onePass).any (fun S => S.ended) = true :=
    Machine.exists_of_run (by decide +kernel)
  obtain ⟨s, hs, ⟨⟨hpc, hp⟩, hqueue, hnext⟩, hpass⟩ := hrun
  obtain ⟨S, hS, hended⟩ := (Option.any_eq_true _ _).mp hpass
  have hne : (s.processers_ 0).runnableQueue_ ≠ [] := hqueue ▸ List.cons_ne_nil _ _
  exact ⟨s, S, hs, hS, hended,
    runs_of_reach (reach_of_run _ hs) hp (.inr hpc) hne hnext (reach_of_run _ hS)⟩

end LoopPass

end CppGo.Scheduling
