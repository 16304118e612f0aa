import CppGo.Scheduler.Coherence

/-!
# The steps of `Process`

Every step of the thread of a Processer keeps the tasks in their places, and its two
pointers valid.
-/

namespace CppGo.Scheduling

open CppGo.Lib

open scoped List

namespace Scheduler

variable {s t : Scheduler} {p : Nat} {tk : TaskPtr} {x : Processer}

@[simp] theorem task_setProcesser : (s.setProcesser p x).task = s.task := rfl

@[simp] theorem task_setTask {r : Task} : (s.setTask tk r).task tk = r :=
  Function.update_self ..

theorem erase_mem_of_ne {tk' : TaskPtr} {q : TaskQueue} (h : tk' ∈ q) (hne : tk' ≠ tk) :
    tk' ∈ (q.eraseWithoutLock tk).1 := by
  unfold TaskQueue.eraseWithoutLock
  split
  · exact (List.mem_erase_of_ne hne).mpr h
  · exact h

theorem Tidy.nodup_queue (h : s.Tidy) : (s.processers_ p).runnableQueue_.Nodup :=
  h.nodup (.processer p .runnable)

theorem Coherent.setProcesser (h : s.Coherent) (htidy : (s.setProcesser p x).Tidy)
    (hphase : (s.setProcesser p x).Phase p x.pc x.runningTask_)
    (hnext : ∀ tk, x.nextTask_ = some tk → tk ∈ x.runnableQueue_) :
    (s.setProcesser p x).Coherent :=
  h.advance rfl (fun _ _ => rfl) (List.append_nil _).symm rfl (by simp) h.sound htidy hphase hnext

theorem Coherent.setProcesser_of_held (h : s.Coherent) (hheld : ∀ q, x.held q ~ (s.processers_ p).held q)
    (hphase : (s.setProcesser p x).Phase p x.pc x.runningTask_)
    (hnext : ∀ tk, x.nextTask_ = some tk → tk ∈ x.runnableQueue_) :
    (s.setProcesser p x).Coherent :=
  h.setProcesser (h.tidy.stay ⟨rfl, rfl⟩ hheld fun _ => .refl _) hphase hnext

section AddNewTasks

theorem Coherent.front {pc : ProcessPc} (h : s.Coherent)
    (hpc : (s.processers_ p).pc = .front ∨ (s.processers_ p).pc = .frontAgain)
    (hpc' : pc = .addEmpty true ∨ pc = .waitLoop) :
    (s.setProcesser p
      { s.processers_ p with
        runningTask_ := (s.processers_ p).runnableQueue_.front
        pc := if (s.processers_ p).runnableQueue_.front.isSome then .loop else pc }).Coherent := by
  apply h.setProcesser_of_held
  · intro q
    cases hfront : (s.processers_ p).runnableQueue_.front <;>
      rcases hpc with hpc | hpc <;> rcases hpc' with rfl | rfl <;> cases q <;>
      simp [Processer.held, hpc, ProcessPc.elements]
  · cases hfront : (s.processers_ p).runnableQueue_.front with
    | none =>
        apply Phase.between
        rcases hpc' with rfl | rfl <;> trivial
    | some tk =>
        apply Phase.picked
        intro tk' heq
        injection heq with heq
        rw [processers_setProcesser, ← heq]
        exact TaskQueue.mem_of_front hfront
  · exact h.next p

/-- Between two rounds of the inner loop, only the place in `Process` changes. -/
theorem Coherent.setPc_between {pc : ProcessPc} (h : s.Coherent)
    (hrun : (s.processers_ p).runningTask_ = none)
    (hpc : pc.Between) (helements : pc.elements = (s.processers_ p).pc.elements) :
    (s.setProcesser p { s.processers_ p with pc := pc }).Coherent := by
  apply h.setProcesser_of_held
  · intro q
    cases q with
    | runnable | new => exact .refl _
    | adding =>
        show pc.elements ~ _
        rw [helements]
        exact .refl _
    | finished => simp [Processer.held, hrun]
  · show Phase _ p pc (s.processers_ p).runningTask_
    rw [hrun]
    exact .between hpc
  · exact h.next p

theorem Coherent.addPop {idle : Bool} (h : s.Coherent) (hpc : (s.processers_ p).pc = .addPop idle)
    (hrun : (s.processers_ p).runningTask_ = none) :
    (s.setProcesser p
      { s.processers_ p with
        newQueue_ := []
        pc := .addPush idle (s.processers_ p).newQueue_ }).Coherent := by
  apply h.setProcesser
  · apply h.tidy.shift (a := .new) (b := .adding) (l := (s.processers_ p).newQueue_) (by decide)
    · show _ ~ (s.processers_ p).newQueue_ ++ []
      rw [List.append_nil]
      exact .refl _
    · simp [Processer.held, hpc, ProcessPc.elements]
    · intro q hnew hadding
      cases q with
      | runnable => exact .refl _
      | new => exact absurd rfl hnew
      | adding => exact absurd rfl hadding
      | finished => simp [Processer.held, hpc]
  · show Phase _ p _ (s.processers_ p).runningTask_
    rw [hrun]
    exact .between trivial
  · exact h.next p

theorem Coherent.addPush {idle : Bool} {elements : TaskList} {pc : ProcessPc} (h : s.Coherent)
    (hpc : (s.processers_ p).pc = .addPush idle elements)
    (hrun : (s.processers_ p).runningTask_ = none) (hpc' : pc = .front ∨ pc = .frontAgain) :
    (s.setProcesser p
      { s.processers_ p with
        runnableQueue_ := (s.processers_ p).runnableQueue_ ++ elements
        pc := pc }).Coherent := by
  have hempty : pc.elements = [] := by
    rcases hpc' with rfl | rfl <;> rfl
  apply h.setProcesser
  · apply h.tidy.shift (a := .adding) (b := .runnable) (l := elements) (by decide)
    · show (s.processers_ p).pc.elements ~ elements ++ pc.elements
      rw [hpc, hempty, List.append_nil]
      exact .refl _
    · exact List.perm_append_comm
    · intro q hadding hrunnable
      cases q with
      | runnable => exact absurd rfl hrunnable
      | new => exact .refl _
      | adding => exact absurd rfl hadding
      | finished => simp [Processer.held, hrun]
  · show Phase _ p pc (s.processers_ p).runningTask_
    rw [hrun]
    apply Phase.between
    rcases hpc' with rfl | rfl <;> trivial
  · intro tk htk
    exact List.mem_append_left _ (h.next p tk htk)

end AddNewTasks

section Task

theorem Coherent.setTask_of_held {r : Task} {q : Hold} (h : s.Coherent)
    (hmem : tk ∈ (s.processers_ p).held q) (hheld : ∀ q, x.held q ~ (s.processers_ p).held q)
    (hphase : ((s.setTask tk r).setProcesser p x).Phase p x.pc x.runningTask_)
    (hnext : ∀ tk, x.nextTask_ = some tk → tk ∈ x.runnableQueue_) :
    ((s.setTask tk r).setProcesser p x).Coherent := by
  refine h.advance rfl ?_ (List.append_nil _).symm rfl (by simp) h.sound
    (h.tidy.stay ⟨rfl, rfl⟩ hheld fun _ => .refl _) hphase hnext
  intro tk' hnot
  apply Function.update_of_ne
  intro heq
  exact hnot q (heq ▸ hmem)

theorem held_of_pc {pc : ProcessPc} (helements : pc.elements = (s.processers_ p).pc.elements)
    (hold : (s.processers_ p).pc ≠ .doneAdvance) (hnew : pc ≠ .doneAdvance) (q : Hold) :
    ({ s.processers_ p with pc := pc } : Processer).held q ~ (s.processers_ p).held q := by
  cases q with
  | runnable | new => exact .refl _
  | adding =>
      show pc.elements ~ _
      rw [helements]
      exact .refl _
  | finished =>
      show (if pc = .doneAdvance then _ else _) ~ if (s.processers_ p).pc = .doneAdvance then _ else _
      rw [if_neg hold, if_neg hnew]

theorem Coherent.swapIn (h : s.Coherent) (hpc : (s.processers_ p).pc = .loop)
    (hrun : (s.processers_ p).runningTask_ = some tk) : (s.swapIn p tk).Coherent := by
  have hphase := h.phase p
  rw [hpc, hrun] at hphase
  cases hphase with
  | picked hmem =>
      have hmem := hmem tk rfl
      apply h.setTask_of_held (q := .runnable) hmem
      · exact held_of_pc (by rw [hpc]; rfl) (by simp [hpc]) (by simp)
      · show Phase _ p (.exec tk) (s.processers_ p).runningTask_
        rw [hrun]
        exact .exec (by simpa using hmem) (by simp) (by simp)
      · exact h.next p
  | leaving hpc' _ _ => exact hpc'.elim
  | ended hpc' _ _ => rcases hpc' with hpc' | hpc' <;> cases hpc'

theorem Coherent.picked (h : s.Coherent) (hpc : (s.processers_ p).pc = .loop)
    (hrun : (s.processers_ p).runningTask_ = some tk) : tk ∈ (s.processers_ p).runnableQueue_ := by
  have hphase := h.phase p
  rw [hpc, hrun] at hphase
  cases hphase with
  | picked hmem => exact hmem tk rfl
  | leaving hpc' => exact hpc'.elim
  | ended hpc' => rcases hpc' with hpc' | hpc' <;> cases hpc'

theorem Coherent.exec (h : s.Coherent) (hpc : (s.processers_ p).pc = .exec tk) :
    (s.processers_ p).runningTask_ = some tk ∧ tk ∈ (s.processers_ p).runnableQueue_ ∧
      (s.task tk).state_ = .runnable ∧ (s.task tk).proc_ = some p := by
  have hphase := h.phase p
  rw [hpc] at hphase
  generalize (s.processers_ p).runningTask_ = o at hphase
  cases hphase with
  | between hpc' => exact hpc'.elim
  | exec hmem hstate hhome => exact ⟨rfl, hmem, hstate, hhome⟩
  | leaving hpc' _ _ => exact hpc'.elim
  | ended hpc' _ _ => rcases hpc' with hpc' | hpc' <;> cases hpc'

theorem Coherent.yield (h : s.Coherent) (hpc : (s.processers_ p).pc = .exec tk) :
    (s.setProcesser p { s.processers_ p with pc := .switched }).Coherent := by
  obtain ⟨hrun, hmem, hstate, hhome⟩ := h.exec hpc
  apply h.setProcesser_of_held
  · exact held_of_pc (by rw [hpc]; rfl) (by simp [hpc]) (by simp)
  · show Phase _ p .switched (s.processers_ p).runningTask_
    rw [hrun]
    exact .leaving trivial hhome (.queued (by simpa using hmem) hstate)
  · exact h.next p

theorem Coherent.suspendBySelfIo (h : s.Coherent) (hpc : (s.processers_ p).pc = .exec tk) :
    (s.suspendBySelfIo p tk).Coherent := by
  obtain ⟨hrun, hmem, hstate, hhome⟩ := h.exec hpc
  have hassert : (decide ((s.processers_ p).runningTask_ = some tk) &&
      decide ((s.task tk).state_ = .runnable)) = true := by
    simp [hrun, hstate]
  unfold Scheduler.suspendBySelfIo
  simp only [hassert, assert_true]
  apply h.setTask_of_held (q := .runnable) hmem
  · exact held_of_pc (by rw [hpc]; rfl) (by simp [hpc]) (by simp)
  · show Phase _ p (.suspending tk) (s.processers_ p).runningTask_
    rw [hrun]
    exact .suspending (by simpa using hmem) (by simp) (by simpa using hhome)
  · exact h.next p

theorem Coherent.finish (h : s.Coherent) (hpc : (s.processers_ p).pc = .exec tk) :
    (s.finish p tk).Coherent := by
  obtain ⟨hrun, hmem, hstate, hhome⟩ := h.exec hpc
  apply h.setTask_of_held (q := .runnable) hmem
  · exact held_of_pc (by rw [hpc]; rfl) (by simp [hpc]) (by simp)
  · show Phase _ p .switched (s.processers_ p).runningTask_
    rw [hrun]
    exact .ended (.inl rfl) (by simpa using hmem) (by simp)
  · exact h.next p

theorem Coherent.suspending (h : s.Coherent) (hpc : (s.processers_ p).pc = .suspending tk) :
    (s.processers_ p).runningTask_ = some tk ∧ tk ∈ (s.processers_ p).runnableQueue_ ∧
      (s.task tk).state_ = .block ∧ (s.task tk).proc_ = some p := by
  have hphase := h.phase p
  rw [hpc] at hphase
  generalize (s.processers_ p).runningTask_ = o at hphase
  cases hphase with
  | between hpc' => exact hpc'.elim
  | suspending hmem hstate hhome => exact ⟨rfl, hmem, hstate, hhome⟩
  | leaving hpc' _ _ => exact hpc'.elim
  | ended hpc' _ _ => rcases hpc' with hpc' | hpc' <;> cases hpc'

theorem Coherent.suspendErase (h : s.Coherent) (hpc : (s.processers_ p).pc = .suspending tk) :
    (s.suspendErase p tk).Coherent := by
  obtain ⟨hrun, hmem, hstate, hhome⟩ := h.suspending hpc
  have herase := TaskQueue.erase_of_mem hmem
  have hassert : (decide ((s.processers_ p).runningTask_ = some tk) && s.owns p (some tk) &&
      ((s.processers_ p).runnableQueue_.eraseWithoutLock tk).2) = true := by
    simp [hrun, owns_of_mem hmem, herase]
  unfold Scheduler.suspendErase
  simp only [hassert, assert_true]
  refine @advance _ _ _ _ [tk] h rfl (fun _ _ => rfl) rfl rfl ?_ h.sound ?_ ?_ ?_
  · intro tk' htk'
    rw [List.mem_singleton] at htk'
    subst htk'
    exact ⟨hstate, p, hhome⟩
  · refine h.tidy.move ⟨rfl, rfl⟩ (i := .processer p .runnable) (j := .shared .suspended)
      (l := [tk]) processer_ne_shared ?_ ?_ ?_ ?_
    · simp only [contents, processers_setProcesser, Processer.held, herase]
      exact List.perm_cons_erase hmem
    · exact List.perm_append_comm
    · intro q hq _
      cases q with
      | runnable => exact absurd rfl hq
      | new => exact .refl _
      | adding => simp [Processer.held, hpc, ProcessPc.elements]
      | finished => simp [Processer.held, hpc]
    · intro g _ hg
      cases g with
      | suspended => exact absurd rfl hg
      | creating | waking | tasks | slist | free => exact .refl _
  · show Phase _ p (.suspended tk) (s.processers_ p).runningTask_
    rw [hrun]
    exact .leaving rfl hhome (.suspended (List.mem_append_right _ (List.mem_singleton_self tk)))
  · intro tk' hnext
    exact erase_mem_of_ne (TaskQueue.mem_of_next hnext) (TaskQueue.next_ne h.tidy.nodup_queue hnext)

theorem Coherent.switchOut (h : s.Coherent) (hpc : (s.processers_ p).pc = .suspended tk) :
    (s.setProcesser p { s.processers_ p with pc := .switched }).Coherent := by
  apply h.setProcesser_of_held
  · exact held_of_pc (by rw [hpc]; rfl) (by simp [hpc]) (by simp)
  · have hphase := h.phase p
    rw [hpc] at hphase
    show Phase _ p .switched (s.processers_ p).runningTask_
    generalize (s.processers_ p).runningTask_ = o at hphase
    cases hphase with
    | between hpc' => exact hpc'.elim
    | leaving _ hhome hat =>
        refine .leaving trivial hhome ?_
        cases hat with
        | queued hmem hstate => exact .queued (by simpa using hmem) hstate
        | suspended hmem => exact .suspended hmem
        | woken hmem => exact .woken hmem
    | ended hpc' _ _ => rcases hpc' with hpc' | hpc' <;> cases hpc'
  · exact h.next p

/-- A task that has been woken up before it has switched out is in the queue again. -/
theorem Coherent.runsOn (h : s.Coherent) (hpc : (s.processers_ p).pc = .suspended tk)
    (hback : tk ∉ s.suspended ∧ tk ∉ s.waking.map Prod.fst) :
    (s.processers_ p).runningTask_ = some tk ∧ tk ∈ (s.processers_ p).runnableQueue_ ∧
      (s.task tk).state_ = .runnable ∧ (s.task tk).proc_ = some p := by
  have hphase := h.phase p
  rw [hpc] at hphase
  generalize (s.processers_ p).runningTask_ = o at hphase
  cases hphase with
  | between hpc' => exact hpc'.elim
  | leaving hpc' hhome hat =>
      obtain rfl := hpc'
      cases hat with
      | queued hmem hstate => exact ⟨rfl, hmem, hstate, hhome⟩
      | suspended hmem => exact absurd hmem hback.1
      | woken hmem => exact absurd hmem hback.2
  | ended hpc' _ _ => rcases hpc' with hpc' | hpc' <;> cases hpc'

theorem Coherent.runOn (h : s.Coherent) (hpc : (s.processers_ p).pc = .suspended tk)
    (hback : tk ∉ s.suspended ∧ tk ∉ s.waking.map Prod.fst) :
    (s.setProcesser p { s.processers_ p with pc := .exec tk }).Coherent := by
  obtain ⟨hrun, hmem, hstate, hhome⟩ := h.runsOn hpc hback
  apply h.setProcesser_of_held
  · exact held_of_pc (by rw [hpc]; rfl) (by simp [hpc]) (by simp)
  · show Phase _ p (.exec tk) (s.processers_ p).runningTask_
    rw [hrun]
    exact .exec (by simpa using hmem) hstate hhome
  · exact h.next p

end Task

section Branch

theorem Attached.runnable_or_block (h : s.Coherent) (hat : s.Attached p tk) :
    (s.task tk).state_ = .runnable ∨ (s.task tk).state_ = .block := by
  cases hat with
  | queued _ hstate => exact .inl hstate
  | suspended hmem => exact .inr (h.suspended tk hmem).1
  | woken hmem =>
      obtain ⟨w, hw, rfl⟩ := List.mem_map.mp hmem
      exact .inl (h.waking w hw).1

theorem Attached.setProcesser (hat : s.Attached p tk)
    (hqueue : x.runnableQueue_ = (s.processers_ p).runnableQueue_) :
    (s.setProcesser p x).Attached p tk := by
  cases hat with
  | queued hmem hstate =>
      refine .queued ?_ hstate
      rw [processers_setProcesser, hqueue]
      exact hmem
  | suspended hmem => exact .suspended hmem
  | woken hmem => exact .woken hmem

theorem Coherent.switched (h : s.Coherent) (hpc : (s.processers_ p).pc = .switched)
    (hrun : (s.processers_ p).runningTask_ = some tk) : (s.branch p tk).Coherent := by
  unfold branch
  simp only [hpc]
  apply h.setProcesser_of_held
  · apply held_of_pc
    · rw [hpc]
      split <;> rfl
    · simp [hpc]
    · split <;> simp
  · show Phase _ p _ (s.processers_ p).runningTask_
    have hphase := h.phase p
    rw [hpc, hrun] at hphase
    rw [hrun]
    cases hphase with
    | leaving _ hhome hat =>
        rcases hat.runnable_or_block h with hstate | hstate <;> rw [hstate]
        · exact .leaving trivial hhome (hat.setProcesser rfl)
        · exact .leaving trivial hhome (hat.setProcesser rfl)
    | ended _ hmem hstate =>
        rw [hstate]
        exact .ended (.inr rfl) (by simpa using hmem) hstate
  · exact h.next p

theorem Phase.loop {o : Option TaskPtr} (hpc : x.pc = .loop) (ho : x.runningTask_ = o)
    (hmem : ∀ tk, o = some tk → tk ∈ x.runnableQueue_)
    (hproc : t.processers_ p = x) : t.Phase p x.pc x.runningTask_ := by
  rw [hpc, ho]
  exact .picked fun tk htk => hproc ▸ hmem tk htk

theorem Coherent.block (h : s.Coherent) (hpc : (s.processers_ p).pc = .block) :
    (s.branch p tk).Coherent := by
  unfold branch
  simp only [hpc]
  apply h.setProcesser_of_held
  · intro q
    cases q with
    | runnable | new => exact .refl _
    | adding => simp [Processer.held, hpc, ProcessPc.elements]
    | finished => simp [Processer.held, hpc]
  · exact .loop rfl rfl (h.next p) processers_setProcesser
  · intro _ htk
    cases htk

theorem Coherent.runnable (h : s.Coherent) (hpc : (s.processers_ p).pc = .runnable)
    (hrun : (s.processers_ p).runningTask_ = some tk) : (s.branch p tk).Coherent := by
  unfold branch
  simp only [hpc]
  rw [← hrun, h.owns_running, assert_true]
  apply h.setProcesser_of_held
  · intro q
    cases q with
    | runnable | new => exact .refl _
    | adding => simp [Processer.held, hpc, ProcessPc.elements]
    | finished => simp [Processer.held, hpc]
  · exact .loop rfl rfl (fun _ => TaskQueue.mem_of_next) processers_setProcesser
  · exact h.next p

theorem Coherent.ended (h : s.Coherent)
    (hpc : (s.processers_ p).pc = .doneNext ∨ (s.processers_ p).pc = .doneErase)
    (hrun : (s.processers_ p).runningTask_ = some tk) :
    tk ∈ (s.processers_ p).runnableQueue_ ∧ (s.task tk).state_ = .done ∧
      ((s.processers_ p).pc = .doneErase → (s.processers_ p).nextTask_ ≠ some tk) := by
  have hphase := h.phase p
  rw [hrun] at hphase
  rcases hpc with hpc | hpc <;> rw [hpc] at hphase ⊢
  · cases hphase with
    | leaving hpc' _ _ => exact hpc'.elim
    | ended _ hmem hstate => exact ⟨hmem, hstate, fun hpc' => absurd hpc' (by simp)⟩
  · cases hphase with
    | leaving hpc' _ _ => exact hpc'.elim
    | ended hpc' _ _ => rcases hpc' with hpc' | hpc' <;> cases hpc'
    | erasing hmem hnext hstate => exact ⟨hmem, hstate, fun _ => hnext⟩

theorem Coherent.doneNext (h : s.Coherent) (hpc : (s.processers_ p).pc = .doneNext)
    (hrun : (s.processers_ p).runningTask_ = some tk) : (s.branch p tk).Coherent := by
  obtain ⟨hmem, hstate, _⟩ := h.ended (.inl hpc) hrun
  unfold branch
  simp only [hpc]
  rw [owns_of_mem hmem, assert_true]
  apply h.setProcesser_of_held
  · intro q
    cases q with
    | runnable | new => exact .refl _
    | adding => simp [Processer.held, hpc, ProcessPc.elements]
    | finished => simp [Processer.held, hpc]
  · show Phase _ p .doneErase (s.processers_ p).runningTask_
    rw [hrun]
    refine .erasing (by simpa using hmem) ?_ hstate
    rw [processers_setProcesser]
    intro hnext
    exact TaskQueue.next_ne h.tidy.nodup_queue hnext rfl
  · exact fun _ => TaskQueue.mem_of_next

theorem Coherent.doneErase (h : s.Coherent) (hpc : (s.processers_ p).pc = .doneErase)
    (hrun : (s.processers_ p).runningTask_ = some tk) : (s.branch p tk).Coherent := by
  obtain ⟨hmem, hstate, hnext⟩ := h.ended (.inr hpc) hrun
  have herase := TaskQueue.erase_of_mem hmem
  unfold branch
  simp only [hpc]
  rw [owns_of_mem hmem, assert_true]
  apply h.setProcesser
  · apply h.tidy.shift (a := .runnable) (b := .finished) (l := [tk]) (by decide)
    · simp only [Processer.held, herase]
      exact List.perm_cons_erase hmem
    · simp [Processer.held, hpc, hrun]
    · intro q hrunnable hfinished
      cases q with
      | runnable => exact absurd rfl hrunnable
      | new => exact .refl _
      | adding => simp [Processer.held, hpc, ProcessPc.elements]
      | finished => exact absurd rfl hfinished
  · show Phase _ p .doneAdvance (s.processers_ p).runningTask_
    rw [hrun]
    exact .erased hstate
  · intro tk' htk'
    apply erase_mem_of_ne (h.next p tk' htk')
    intro heq
    exact hnext hpc (heq ▸ htk')

theorem Coherent.doneAdvance (h : s.Coherent) (hpc : (s.processers_ p).pc = .doneAdvance)
    (hrun : (s.processers_ p).runningTask_ = some tk) : (s.branch p tk).Coherent := by
  have hmem : (s.processers_ p).held .finished = [tk] := by
    simp [Processer.held, hpc, hrun]
  unfold branch
  simp only [hpc]
  refine h.advance rfl ?_ (List.append_nil _).symm rfl (by simp) h.sound ?_ ?_ (by simp)
  · intro tk' hnot
    apply Function.update_of_ne
    intro heq
    apply hnot .finished
    rw [hmem, heq]
    exact List.mem_singleton_self tk
  · refine h.tidy.move ⟨rfl, rfl⟩ (i := .processer p .finished) (j := .shared .free) (l := [tk])
      processer_ne_shared ?_ ?_ ?_ ?_
    · simp only [contents, processers_setProcesser, hmem]
      simp [Processer.held]
    · exact Multimap.values_insert _ _
    · intro q hq _
      cases q with
      | runnable | new => exact .refl _
      | adding => simp [Processer.held, hpc, ProcessPc.elements]
      | finished => exact absurd rfl hq
    · intro g _ hg
      cases g with
      | free => exact absurd rfl hg
      | creating | suspended | waking | tasks | slist => exact .refl _
  · exact .loop rfl rfl (h.next p) processers_setProcesser

theorem Coherent.running (h : s.Coherent) (hout : (s.processers_ p).pc.SwappedOut) :
    (s.processers_ p).runningTask_ ≠ none := by
  have hphase := h.phase p
  intro hrun
  rw [hrun] at hphase
  generalize (s.processers_ p).pc = pc at hphase hout
  cases hphase with
  | between hbetween => cases pc <;> first | exact hout.elim | exact hbetween.elim
  | picked _ => exact hout.elim

theorem Coherent.idle (h : s.Coherent) (hpc : (s.processers_ p).pc.Between) :
    (s.processers_ p).runningTask_ = none := by
  have hphase := h.phase p
  generalize (s.processers_ p).runningTask_ = o at hphase
  generalize (s.processers_ p).pc = pc at hphase hpc
  cases hphase with
  | between _ => rfl
  | picked _ | exec _ _ _ | suspending _ _ _ | erasing _ _ _ | erased _ => exact hpc.elim
  | leaving hpc' _ _ => cases pc <;> first | exact hpc.elim | exact hpc'.elim
  | ended hpc' _ _ => rcases hpc' with rfl | rfl <;> exact hpc.elim

end Branch

theorem Coherent.process (h : s.Coherent) (hs : s.process p = some t) : t.Coherent := by
  cases processed hs with
  | front hpc => exact h.front (.inl hpc) (.inl rfl)
  | addEmpty hpc =>
      apply h.setPc_between (h.idle (by rw [hpc]; trivial))
      · split
        · split <;> trivial
        · trivial
      · rw [hpc]
        split
        · split <;> rfl
        · rfl
  | addPop hpc => exact h.addPop hpc (h.idle (by rw [hpc]; trivial))
  | addPush hpc =>
      apply h.addPush hpc (h.idle (by rw [hpc]; trivial))
      split <;> simp
  | frontAgain hpc => exact h.front (.inr hpc) (.inr rfl)
  | waitLoop hpc => exact h.setPc_between (h.idle (by rw [hpc]; trivial)) trivial (by rw [hpc]; rfl)
  | swapIn hpc hrun => exact h.swapIn hpc hrun
  | loopEnd hpc hrun => exact h.setPc_between hrun trivial (by rw [hpc]; rfl)
  | suspendErase hpc => exact h.suspendErase hpc
  | suspended hpc => exact h.switchOut hpc
  | branch hout hrun =>
      cases hpc : (s.processers_ p).pc with
      | switched => exact h.switched hpc hrun
      | block => exact h.block hpc
      | runnable => exact h.runnable hpc hrun
      | doneNext => exact h.doneNext hpc hrun
      | doneErase => exact h.doneErase hpc hrun
      | doneAdvance => exact h.doneAdvance hpc hrun
      | _ =>
          rw [hpc] at hout
          exact hout.elim
  | unpicked hout hrun => exact absurd hrun (h.running hout)

end Scheduler

end CppGo.Scheduling
