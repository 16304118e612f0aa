import CppGo.Scheduler.ReleaseSteps

/-!
# What `Stop` leaves behind

When `Stop` returns, the tasks that were queued when it was called have been deleted, each of
them once, and no thread comes to a task that has been deleted.
-/

namespace CppGo.Scheduling

open CppGo.Lib

namespace Shutdown

variable {S T : Shutdown} {e : SchedulerStep} {a : ShutdownStep} {dead : TaskList} {p : Nat}
  {tk : TaskPtr}

section Threads

/-- Which threads `Stop` has waited for. -/
structure Joined (S : Shutdown) : Prop where
  idle : S.dispatchThread_ ≠ .notStarted → S.dispatchThread_ ≠ .calling →
    S.scheduler.dispatcher = .idle
  started : S.stop_ = true → S.dispatchThread_ ≠ .notStarted
  stop_ : S.stop_ = false ↔ S.stop = .notCalled
  running : S.stop_ = false → ∀ p, S.exit p = .process
  processer : ∀ i, S.stop = .processer i →
    S.dispatchThread_ = .exited ∧ ∀ j < i, S.exit j = .exited
  returned : S.stop = .returned →
    S.dispatchThread_ = .exited ∧ ∀ j < S.scheduler.size, S.exit j = .exited

theorem joined_make : make.Joined where
  idle _ _ := rfl
  started := nofun
  stop_ := iff_of_true rfl rfl
  running _ _ := rfl
  processer _ := nofun
  returned := nofun

theorem Joined.mono (h : S.Joined) (hstop_ : T.stop_ = S.stop_) (hstop : T.stop = S.stop)
    (hidle : T.dispatchThread_ ≠ .notStarted → T.dispatchThread_ ≠ .calling →
      T.scheduler.dispatcher = .idle)
    (hstarted : S.dispatchThread_ ≠ .notStarted → T.dispatchThread_ ≠ .notStarted ∧
      T.scheduler.size = S.scheduler.size)
    (hexited : S.dispatchThread_ = .exited → T.dispatchThread_ = .exited)
    (hexit : ∀ p, S.exit p = .exited → T.exit p = .exited)
    (hrunning : S.stop_ = false → ∀ p, T.exit p = S.exit p) : T.Joined where
  idle := hidle
  started hT := (hstarted (h.started (hstop_ ▸ hT))).1
  stop_ := by rw [hstop_, hstop, h.stop_]
  running hT p := by
    rw [hstop_] at hT
    rw [hrunning hT p]
    exact h.running hT p
  processer i hi := by
    obtain ⟨hdispatcher, hjoined⟩ := h.processer i (hstop ▸ hi)
    exact ⟨hexited hdispatcher, fun j hj => hexit j (hjoined j hj)⟩
  returned hT := by
    obtain ⟨hdispatcher, hjoined⟩ := h.returned (hstop ▸ hT)
    have hsize := (hstarted (by rw [hdispatcher]; exact DispatchThread.noConfusion)).2
    refine ⟨hexited hdispatcher, fun j hj => hexit j (hjoined j ?_)⟩
    rwa [hsize] at hj

theorem Joined.schedulerStep (h : S.Joined) (hs : S.schedulerStep e = some T) : T.Joined := by
  have hpasses := passes_of_step hs
  have hthread := hpasses.dispatchThread_
  have hstep := Scheduler.step_dispatcher hpasses.step
  have hsize : S.dispatchThread_ ≠ .notStarted → T.scheduler.size = S.scheduler.size := by
    intro hstarted
    apply hstep.2
    rintro rfl
    exact hstarted (of_decide_eq_true hpasses.may)
  refine h.mono hpasses.stop_ hpasses.stop ?_ ?_ ?_ ?_ ?_
  · by_cases he : e = .avgTotalTasks
    · rw [hthread, if_pos he]
      unfold afterCall
      split
      · exact fun hne => absurd rfl hne
      · split
        · rename_i hidle
          exact fun _ _ => hidle
        · exact fun _ hne => absurd rfl hne
    · rw [hthread, if_neg he, hstep.1 he]
      exact h.idle
  · intro hstarted
    refine ⟨?_, hsize hstarted⟩
    rw [hthread]
    split
    · unfold afterCall
      rw [if_neg hstarted]
      split <;> exact DispatchThread.noConfusion
    · exact hstarted
  · intro hexited
    rw [hthread, if_neg, hexited]
    rintro rfl
    have hmay := (Bool.and_eq_true_iff.mp hpasses.may).2
    exact of_decide_eq_true hmay hexited
  · rw [hpasses.exit]
    exact fun _ => id
  · rw [hpasses.exit]
    exact fun _ _ => rfl

theorem release_fields (hs : S.release p = some T) :
    T.stop_ = S.stop_ ∧ T.stop = S.stop ∧ T.dispatchThread_ = S.dispatchThread_ ∧
      T.scheduler.size = S.scheduler.size ∧ T.scheduler.dispatcher = S.scheduler.dispatcher ∧
      S.exit p ≠ .process ∧ S.exit p ≠ .exited ∧ ∀ p' ≠ p, T.exit p' = S.exit p' := by
  cases released hs with
  | empty hexit | pop hexit | delete hexit | last hexit =>
      rw [hexit]
      exact ⟨rfl, rfl, rfl, rfl, rfl, ReleasePc.noConfusion, ReleasePc.noConfusion,
        fun _ hp => Function.update_of_ne hp ..⟩

theorem Joined.release (h : S.Joined) (hs : S.release p = some T) : T.Joined := by
  obtain ⟨hstop_, hstop, hthread, hsize, hdispatcher, hprocess, hexited, hother⟩ :=
    release_fields hs
  refine h.mono hstop_ hstop ?_ ?_ ?_ ?_ ?_
  · rw [hthread, hdispatcher]
    exact h.idle
  · rw [hthread]
    exact fun hstarted => ⟨hstarted, hsize⟩
  · rw [hthread]
    exact id
  · intro p' hp'
    rw [hother p' fun heq => hexited (heq ▸ hp')]
    exact hp'
  · intro hstopped
    exact absurd (h.running hstopped p) hprocess

theorem Joined.isStop (h : S.Joined) (hexit : S.exit p = .process) : (S.isStop p).Joined := by
  unfold Shutdown.isStop
  split
  · rename_i hstopped
    refine h.mono rfl rfl h.idle (fun hstarted => ⟨hstarted, rfl⟩) id ?_ ?_
    · intro p' hp'
      have hne : p' ≠ p := by
        rintro rfl
        rw [hexit] at hp'
        cases hp'
      exact (Function.update_of_ne hne ..).trans hp'
    · rw [hstopped]
      exact nofun
  · exact h.mono rfl rfl h.idle (fun hstarted => ⟨hstarted, rfl⟩) id (fun _ => id) fun _ _ => rfl

theorem stopStep_scheduler (hs : S.stopStep = some T) : T.scheduler = S.scheduler := by
  unfold Shutdown.stopStep at hs
  split at hs
  · obtain ⟨-, hs⟩ := Option.ite_none_left_eq_some.mp hs
    cases hs
    rfl
  · obtain ⟨-, hs⟩ := Option.ite_none_right_eq_some.mp hs
    cases hs
    rfl
  · split at hs
    · obtain ⟨-, hs⟩ := Option.ite_none_right_eq_some.mp hs
      cases hs
      rfl
    · cases hs
      rfl
  · cases hs

theorem Joined.stopStep (h : S.Joined) (hs : S.stopStep = some T) : T.Joined := by
  unfold Shutdown.stopStep at hs
  split at hs
  case h_1 hstop =>
    obtain ⟨hstarted, hs⟩ := Option.ite_none_left_eq_some.mp hs
    cases hs
    exact ⟨h.idle, fun _ => hstarted, by simp, nofun, fun _ => nofun, nofun⟩
  case h_2 hstop =>
    obtain ⟨hexited, hs⟩ := Option.ite_none_right_eq_some.mp hs
    cases hs
    have hstopped : S.stop_ = true := by
      rw [← Bool.not_eq_false, h.stop_, hstop]
      exact StopPc.noConfusion
    refine ⟨h.idle, h.started, by simp [hstopped], h.running, ?_, nofun⟩
    rintro i hi
    cases hi
    exact ⟨hexited, nofun⟩
  case h_3 i hstop =>
    have hstopped : S.stop_ = true := by
      rw [← Bool.not_eq_false, h.stop_, hstop]
      exact StopPc.noConfusion
    obtain ⟨hexited, hjoined⟩ := h.processer i hstop
    split at hs
    · obtain ⟨hthis, hs⟩ := Option.ite_none_right_eq_some.mp hs
      cases hs
      refine ⟨h.idle, h.started, by simp [hstopped], h.running, ?_, nofun⟩
      rintro j hj
      cases hj
      refine ⟨hexited, fun k hk => ?_⟩
      rcases Nat.lt_succ_iff_lt_or_eq.mp hk with hk | rfl
      · exact hjoined k hk
      · exact hthis
    · rename_i hsize
      cases hs
      refine ⟨h.idle, h.started, by simp [hstopped], h.running, fun _ => nofun, fun _ => ?_⟩
      exact ⟨hexited, fun j hj =>
        hjoined j (Nat.lt_of_lt_of_le hj (Nat.le_of_not_lt hsize))⟩
  case h_4 => cases hs

theorem Joined.step (h : S.Joined) (hs : S.step a = some T) : T.Joined := by
  cases a with
  | scheduler e => exact h.schedulerStep hs
  | release p => exact h.release hs
  | stop => exact h.stopStep hs
  | isStop p =>
      obtain ⟨⟨-, hexit, -⟩, hs⟩ := Option.ite_none_right_eq_some.mp hs
      cases hs
      exact h.isStop hexit
  | started dispatcher =>
      obtain ⟨⟨hthread, hidle⟩, hs⟩ := Option.ite_none_right_eq_some.mp hs
      cases hs
      refine h.mono rfl rfl (fun _ _ => hidle) (fun hne => absurd hthread hne) ?_ (fun _ => id)
        fun _ _ => rfl
      rw [hthread]
      exact nofun
  | dispatcherLoop =>
      obtain ⟨hthread, hs⟩ := Option.ite_none_right_eq_some.mp hs
      cases hs
      have hidle := h.idle (by rw [hthread]; exact DispatchThread.noConfusion)
        (by rw [hthread]; exact DispatchThread.noConfusion)
      refine h.mono rfl rfl (fun _ _ => hidle) (fun _ => ⟨?_, rfl⟩) ?_ (fun _ => id) fun _ _ => rfl
      · simp only
        split <;> exact DispatchThread.noConfusion
      · rw [hthread]
        exact nofun
  | stopTrack =>
      obtain ⟨hthread, hs⟩ := Option.ite_none_right_eq_some.mp hs
      cases hs
      have hidle := h.idle (by rw [hthread]; exact DispatchThread.noConfusion)
        (by rw [hthread]; exact DispatchThread.noConfusion)
      refine h.mono rfl rfl (fun _ _ => hidle) (fun _ => ⟨DispatchThread.noConfusion, rfl⟩) ?_
        (fun _ => id) fun _ _ => rfl
      rw [hthread]
      exact nofun

end Threads

section Bounds

theorem Overlay.bounded_release (h : S.Overlay dead) (hb : S.scheduler.Bounded)
    (hs : S.release p = some T) : T.scheduler.Bounded := by
  have hp : p < S.scheduler.size := h.within p (decide_eq_true (released hs).ne_process)
  cases released hs with
  | empty | delete => exact hb
  | pop | last => exact hb.of_local Scheduler.local_setProcesser hp

theorem Overlay.bounded_step (h : S.Overlay dead) (hb : S.scheduler.Bounded)
    (hs : S.step a = some T) : T.scheduler.Bounded := by
  cases a with
  | scheduler e => exact hb.step (passes_of_step hs).step
  | release p => exact h.bounded_release hb hs
  | isStop p =>
      obtain ⟨-, hs⟩ := Option.ite_none_right_eq_some.mp hs
      cases hs
      unfold Shutdown.isStop
      split <;> exact hb
  | started dispatcher | dispatcherLoop | stopTrack =>
      obtain ⟨-, hs⟩ := Option.ite_none_right_eq_some.mp hs
      cases hs
      exact hb
  | stop =>
      rw [stopStep_scheduler hs]
      exact hb

end Bounds

section Accounts

def Opens (pc : ReleasePc) : Hold → Prop
  | .runnable => pc.BeforeNew
  | .new => pc.BeforeLast
  | .adding => pc = .process
  | .finished => False

def Open (S : Shutdown) : Place → Prop
  | .processer p q => Opens (S.exit p) q
  | .shared g => g = .tasks ∨ g = .slist

/-- The task has been taken out of its queue to be deleted, or it will be. -/
def Pending (S : Shutdown) (tk : TaskPtr) : Prop :=
  (∃ p, (S.exit p).task = some tk) ∨ ∃ i, S.Open i ∧ tk ∈ S.scheduler.contents i

def Settled (S : Shutdown) (tk : TaskPtr) : Prop :=
  tk ∈ S.ceased ∨ tk ∈ S.deleted ∨ S.Pending tk

/-- No task that was queued when `stop_` was set is forgotten. -/
def Accounts (S : Shutdown) : Prop :=
  S.stop_ = true → ∀ tk ∈ S.queued, S.Settled tk

/-- The dispatcher does not come to a `runningTask_` or `nextTask_` that has been deleted, and
gives no task to a Processer that has emptied `newQueue_` for the last time. -/
def ApartAt (S : Shutdown) : DispatcherPc → Prop
  | .stealRunnable a _ _ =>
      ∀ tk ∈ (S.scheduler.processers_ a.i).runningTask_.toList ++
        (S.scheduler.processers_ a.i).nextTask_.toList, tk ∉ S.deleted
  | .addTask a _ => (S.exit a.i).BeforeLast
  | .left tasks => tasks = [] ∨ (S.exit 0).BeforeLast
  | _ => True

/-- The dispatcher keeps apart from the tasks that `ReleaseTask` deletes. -/
def Apart (S : Shutdown) : ShutdownStep → Prop
  | .scheduler .avgTotalTasks => S.ApartAt S.scheduler.dispatcher
  | _ => True

instance (S : Shutdown) : ∀ pc, Decidable (S.ApartAt pc)
  | .stealRunnable _ _ _ => List.decidableBAll _ _
  | .addTask _ _ => inferInstanceAs (Decidable (ReleasePc.BeforeLast _))
  | .left _ => inferInstanceAs (Decidable (_ ∨ ReleasePc.BeforeLast _))
  | .idle | .sizeRunnable _ | .sizeNew _ _ | .steal _ | .deal _ => .isTrue trivial

instance (S : Shutdown) : ∀ a, Decidable (S.Apart a)
  | .scheduler .avgTotalTasks => inferInstanceAs (Decidable (S.ApartAt _))
  | .scheduler .newProcessThread | .scheduler (.createTask _) | .scheduler (.addTask _)
  | .scheduler (.process _) | .scheduler (.yield _) | .scheduler (.suspendBySelfIo _)
  | .scheduler (.runOn _) | .scheduler (.finish _) | .scheduler (.wakeupBySelfIo _)
  | .scheduler (.wakeupPush _) | .started _ | .dispatcherLoop | .stopTrack | .isStop _
  | .release _ | .stop => .isTrue trivial

theorem Open.isList {i : Place} (h : S.Open i) : i.IsList := by
  cases i with
  | shared g => exact h
  | processer p q =>
      cases q with
      | runnable | new | adding => exact Hold.noConfusion
      | finished => exact h.elim

/-- A step of the scheduler takes no task to a place that no thread will look at. -/
theorem Open.flows {i j : Place} (h : S.Open i) (hmay : S.mayStep e = true)
    (hapart : S.Apart (.scheduler e)) (hflows : S.scheduler.Flows e i j) : S.Open j := by
  cases hflows with
  | stays => exact h
  | process hb =>
      have hexit := of_decide_eq_true (Bool.and_eq_true_iff.mp hmay).1
      rcases hb with rfl | rfl
      · show (S.exit _).BeforeNew
        rw [hexit]
        trivial
      · exact hexit
  | shared hg => exact hg
  | addTask hd =>
      unfold Apart ApartAt at hapart
      rw [hd] at hapart
      exact hapart
  | left hd htasks =>
      unfold Apart ApartAt at hapart
      rw [hd] at hapart
      exact hapart.resolve_left htasks

theorem Settled.schedulerStep (h : S.Settled tk) (hstop : S.stop_ = true)
    (hapart : S.Apart (.scheduler e)) (hs : S.schedulerStep e = some T) : T.Settled tk := by
  have hpasses := passes_of_step hs
  have hceased := hpasses.ceased
  rw [if_pos hstop] at hceased
  have hopen : ∀ i, S.Open i → T.Open i := by
    intro i hi
    unfold Open
    rw [hpasses.exit]
    exact hi
  unfold Settled Pending
  rw [hceased, hpasses.deleted, hpasses.exit]
  rcases h with h | h | h | ⟨i, hi, hmem⟩
  · exact .inl (List.mem_append_left _ h)
  · exact .inr (.inl h)
  · exact .inr (.inr (.inl h))
  · rcases Scheduler.keeps_step hpasses.step hi.isList hmem with hleaves | ⟨j, hflows, hmem⟩
    · left
      rw [hleaves]
      exact List.mem_append_right _ (List.mem_singleton_self tk)
    · exact .inr (.inr (.inr ⟨j, hopen j (hi.flows hpasses.may hapart hflows), hmem⟩))

theorem Settled.of_exit (h : S.Settled tk) (hother : ∀ p' ≠ p, T.exit p' = S.exit p')
    (hceased : T.ceased = S.ceased) (hdeleted : S.deleted ⊆ T.deleted)
    (hcontents : ∀ i, (∀ q, i ≠ .processer p q) →
      T.scheduler.contents i = S.scheduler.contents i)
    (hlocal : (S.exit p).task = some tk → T.Settled tk)
    (hheld : ∀ q, S.Open (.processer p q) → tk ∈ (S.scheduler.processers_ p).held q →
      T.Settled tk) : T.Settled tk := by
  rcases h with h | h | ⟨p', h⟩ | ⟨i, hi, hmem⟩
  · exact .inl (hceased ▸ h)
  · exact .inr (.inl (hdeleted h))
  · by_cases hp : p' = p
    · exact hlocal (hp ▸ h)
    · exact .inr (.inr (.inl ⟨p', hother p' hp ▸ h⟩))
  · cases i with
    | shared g =>
        refine .inr (.inr (.inr ⟨.shared g, hi, ?_⟩))
        rw [hcontents _ fun _ => Place.noConfusion]
        exact hmem
    | processer p' q =>
        by_cases hp : p' = p
        · subst hp
          exact hheld q hi hmem
        · refine .inr (.inr (.inr ⟨.processer p' q, ?_, ?_⟩))
          · show Opens (T.exit p') q
            rw [hother p' hp]
            exact hi
          · rw [hcontents]
            · exact hmem
            · intro q' heq
              injection heq with heq
              exact hp heq

theorem Settled.here {q : Hold} (hopen : T.Open (.processer p q))
    (hmem : tk ∈ (T.scheduler.processers_ p).held q) : T.Settled tk :=
  .inr (.inr (.inr ⟨.processer p q, hopen, hmem⟩))

theorem contents_setProcesser {s : Scheduler} {x : Processer} {i : Place}
    (hi : ∀ q, i ≠ .processer p q) : (s.setProcesser p x).contents i = s.contents i := by
  cases i with
  | shared g => rfl
  | processer p' q =>
      have hp : p' ≠ p := fun heq => hi q (heq ▸ rfl)
      exact congrArg (Processer.held · q) (Function.update_of_ne hp ..)

theorem Settled.isStop (h : S.Settled tk) (hexit : S.exit p = .process)
    (hreads : (S.scheduler.processers_ p).readsStop = true) : (S.isStop p).Settled tk := by
  unfold Shutdown.isStop
  split
  · refine h.of_exit (p := p) (fun p' hp => Function.update_of_ne hp ..) rfl
      (List.Subset.refl _) (fun _ _ => rfl) ?_ ?_
    · rw [hexit]
      exact nofun
    · intro q hopen hmem
      cases q with
      | runnable =>
          refine .here (q := .runnable) ?_ hmem
          show (Function.update S.exit p (.empty .runnable) p).BeforeNew
          rw [Function.update_self]
          trivial
      | new =>
          refine .here (q := .new) ?_ hmem
          show (Function.update S.exit p (.empty .runnable) p).BeforeLast
          rw [Function.update_self]
          trivial
      | adding =>
          change tk ∈ (S.scheduler.processers_ p).pc.elements at hmem
          rw [(readsStop_cases hreads).2] at hmem
          cases hmem
      | finished => exact hopen.elim
  · exact h

/-- A thread in `ReleaseTask` has no local list of `AddNewTasks`. -/
theorem opens_cases {pc : ReleasePc} {q : Hold} (h : Opens pc q) (hpc : pc ≠ .process) :
    ∃ r : ReleaseLoop, q = r.hold := by
  cases q with
  | runnable => exact ⟨.runnable, rfl⟩
  | new => exact ⟨.new, rfl⟩
  | adding => exact absurd h hpc
  | finished => exact h.elim

theorem opens_pop {q r : ReleaseLoop} (h : Opens (.empty q) r.hold) : Opens (.pop q) r.hold := by
  cases q <;> cases r <;> exact h

theorem opens_delete {q r : ReleaseLoop} {task : Option TaskPtr} (h : Opens (.pop q) r.hold) :
    Opens (.delete q task) r.hold := by
  cases q <;> cases r <;> exact h

theorem opens_again {q r : ReleaseLoop} {task : Option TaskPtr}
    (h : Opens (.delete q task) r.hold) : Opens (.empty q) r.hold := by
  cases q <;> cases r <;> exact h

theorem Settled.of_release {pc : ReleasePc} (h : S.Settled tk) (hprocess : S.exit p ≠ .process)
    (hexit : T.exit = Function.update S.exit p pc) (hceased : T.ceased = S.ceased)
    (hdeleted : S.deleted ⊆ T.deleted)
    (hcontents : ∀ i, (∀ q, i ≠ .processer p q) →
      T.scheduler.contents i = S.scheduler.contents i)
    (hlocal : (S.exit p).task = some tk → T.Settled tk)
    (hheld : ∀ r : ReleaseLoop, Opens (S.exit p) r.hold →
      tk ∈ (S.scheduler.processers_ p).held r.hold →
      T.Settled tk ∨ Opens pc r.hold ∧ tk ∈ (T.scheduler.processers_ p).held r.hold) :
    T.Settled tk := by
  have hother : ∀ p' ≠ p, T.exit p' = S.exit p' := fun p' hp => by
    rw [hexit, Function.update_of_ne hp]
  refine h.of_exit hother hceased hdeleted hcontents hlocal ?_
  intro a hopen hmem
  obtain ⟨r, rfl⟩ := opens_cases hopen hprocess
  rcases hheld r hopen hmem with hsettled | ⟨hopen', hmem'⟩
  · exact hsettled
  · refine .here (q := r.hold) ?_ hmem'
    show Opens (T.exit p) r.hold
    rw [hexit, Function.update_self]
    exact hopen'

theorem opens_empty {x : Processer} {q r : ReleaseLoop} (hopen : Opens (.empty q) r.hold)
    (hmem : tk ∈ x.releaseQueue r) :
    Opens (if (x.releaseQueue q).isEmpty then behind q else .pop q) r.hold := by
  split
  · rename_i hempty
    -- the queue of the loop is empty, so the task is in the other one
    have hne : r ≠ q := by
      rintro rfl
      exact List.ne_nil_of_mem hmem (List.isEmpty_iff.mp hempty)
    cases q with
    | runnable =>
        cases r with
        | runnable => exact absurd rfl hne
        | new => trivial
    | new =>
        cases r with
        | runnable => exact hopen.elim
        | new => exact absurd rfl hne
  · exact opens_pop hopen

theorem held_popRelease_of_mem {x : Processer} {q r : ReleaseLoop} (hmem : tk ∈ x.held r.hold) :
    (x.releaseQueue q).head? = some tk ∨ tk ∈ (x.popRelease q).held r.hold := by
  by_cases hr : r = q
  · subst hr
    rw [Processer.held_hold] at hmem
    rw [Processer.held_popRelease]
    cases hqueue : x.releaseQueue r with
    | nil =>
        rw [hqueue] at hmem
        cases hmem
    | cons tk' queue =>
        rw [hqueue] at hmem
        exact (List.mem_cons.mp hmem).imp_left fun heq => congrArg some heq.symm
  · right
    rw [Processer.held_popRelease_of_ne]
    · exact hmem
    · cases q <;> cases r <;> first | exact absurd rfl hr | exact Hold.noConfusion

theorem Settled.release (h : S.Settled tk) (hs : S.release p = some T) : T.Settled tk := by
  have hprocess := (released hs).ne_process
  cases released hs with
  | empty hexit =>
      refine h.of_release hprocess rfl rfl (List.Subset.refl _) (fun _ _ => rfl) ?_ ?_
      · rw [hexit]
        exact nofun
      · intro r hopen hmem
        rw [hexit] at hopen
        exact .inr ⟨opens_empty hopen (Processer.held_hold ▸ hmem), hmem⟩
  | pop hexit =>
      refine h.of_release hprocess rfl rfl (List.Subset.refl _)
        (fun _ hi => contents_setProcesser hi) ?_ ?_
      · rw [hexit]
        exact nofun
      · intro r hopen hmem
        rw [hexit] at hopen
        rcases held_popRelease_of_mem hmem with hhead | hmem'
        · refine .inl (.inr (.inr (.inl ⟨p, ?_⟩)))
          show (Function.update S.exit p _ p).task = some tk
          rw [Function.update_self]
          exact hhead
        · refine .inr ⟨opens_delete hopen, ?_⟩
          rw [Scheduler.processers_setProcesser]
          exact hmem'
  | delete hexit =>
      refine h.of_release hprocess rfl rfl (List.subset_append_left _ _) (fun _ _ => rfl) ?_ ?_
      · intro hlocal
        rw [hexit] at hlocal
        exact .inr (.inl (List.mem_append_right _ (Option.mem_toList.mpr hlocal)))
      · intro r hopen hmem
        rw [hexit] at hopen
        exact .inr ⟨opens_again hopen, hmem⟩
  | last hexit =>
      refine h.of_release hprocess rfl rfl (List.Subset.refl _)
        (fun _ hi => contents_setProcesser hi) ?_ ?_
      · rw [hexit]
        exact nofun
      · intro r hopen _
        rw [hexit] at hopen
        cases r <;> exact hopen.elim

/-- When `Stop` sets `stop_`, every thread is in `Process`. -/
theorem Joined.settled_listed (h : S.Joined) (hstop : S.stop_ = false)
    (hT : T.scheduler = S.scheduler) (hexit : T.exit = S.exit)
    (hmem : tk ∈ S.scheduler.listed) : T.Settled tk := by
  have hprocess := h.running hstop
  have hopen : ∀ p q, q ≠ .finished → T.Open (.processer p q) := by
    intro p q hq
    show Opens (T.exit p) q
    rw [hexit, hprocess p]
    cases q with
    | runnable | new => trivial
    | adding => rfl
    | finished => exact absurd rfl hq
  have hpending : ∀ i, T.Open i → tk ∈ S.scheduler.contents i → T.Settled tk := by
    intro i hi hmem
    rw [← hT] at hmem
    exact .inr (.inr (.inr ⟨i, hi, hmem⟩))
  unfold Scheduler.listed at hmem
  simp only [List.mem_append, List.mem_flatMap] at hmem
  rcases hmem with (⟨p, -, hmem | hmem⟩ | hmem) | hmem
  · exact hpending (.processer p .runnable) (hopen p .runnable Hold.noConfusion) hmem
  · exact hpending (.processer p .new) (hopen p .new Hold.noConfusion) hmem
  · exact hpending (.shared .tasks) (.inl rfl) hmem
  · exact hpending (.shared .slist) (.inr rfl) hmem

theorem Accounts.same (h : S.Accounts) (hscheduler : T.scheduler = S.scheduler)
    (hstop : T.stop_ = S.stop_) (hexit : T.exit = S.exit) (hdeleted : T.deleted = S.deleted)
    (hqueued : T.queued = S.queued) (hceased : T.ceased = S.ceased) : T.Accounts := by
  unfold Accounts Settled Pending Open
  rw [hscheduler, hstop, hexit, hdeleted, hqueued, hceased]
  exact h

theorem Accounts.stopStep (h : S.Accounts) (hj : S.Joined) (hs : S.stopStep = some T) :
    T.Accounts := by
  unfold Shutdown.stopStep at hs
  split at hs
  case h_1 hstop =>
    obtain ⟨-, hs⟩ := Option.ite_none_left_eq_some.mp hs
    cases hs
    exact fun _ tk hmem => hj.settled_listed (hj.stop_.mpr hstop) rfl rfl hmem
  case h_2 =>
    obtain ⟨-, hs⟩ := Option.ite_none_right_eq_some.mp hs
    cases hs
    exact h.same rfl rfl rfl rfl rfl rfl
  case h_3 =>
    split at hs
    · obtain ⟨-, hs⟩ := Option.ite_none_right_eq_some.mp hs
      cases hs
      exact h.same rfl rfl rfl rfl rfl rfl
    · cases hs
      exact h.same rfl rfl rfl rfl rfl rfl
  case h_4 => cases hs

theorem release_ghosts (hs : S.release p = some T) :
    T.stop_ = S.stop_ ∧ T.queued = S.queued := by
  cases released hs <;> exact ⟨rfl, rfl⟩

theorem Accounts.step (h : S.Accounts) (hj : S.Joined) (hapart : S.Apart a)
    (hs : S.step a = some T) : T.Accounts := by
  cases a with
  | scheduler e =>
      have hpasses := passes_of_step hs
      intro hstop tk hmem
      rw [hpasses.stop_] at hstop
      rw [hpasses.queued] at hmem
      exact (h hstop tk hmem).schedulerStep hstop hapart hs
  | isStop p =>
      obtain ⟨⟨-, hexit, hreads, -⟩, hs⟩ := Option.ite_none_right_eq_some.mp hs
      cases hs
      have hghosts : (S.isStop p).stop_ = S.stop_ ∧ (S.isStop p).queued = S.queued := by
        unfold Shutdown.isStop
        split <;> exact ⟨rfl, rfl⟩
      intro hstop tk hmem
      rw [hghosts.1] at hstop
      rw [hghosts.2] at hmem
      exact (h hstop tk hmem).isStop hexit hreads
  | release p =>
      have hghosts := release_ghosts hs
      intro hstop tk hmem
      rw [hghosts.1] at hstop
      rw [hghosts.2] at hmem
      exact (h hstop tk hmem).release hs
  | stop => exact h.stopStep hj hs
  | started dispatcher | dispatcherLoop | stopTrack =>
      obtain ⟨-, hs⟩ := Option.ite_none_right_eq_some.mp hs
      cases hs
      exact h.same rfl rfl rfl rfl rfl rfl

end Accounts

section Accesses

def Placed (S : Shutdown) (tk : TaskPtr) : Prop :=
  ∃ i, (∀ p, i ≠ .processer p .finished) ∧ tk ∈ S.scheduler.contents i

theorem placed_shared {g : Shared} (hmem : tk ∈ S.scheduler.shared g) : S.Placed tk :=
  ⟨.shared g, fun _ => Place.noConfusion, hmem⟩

theorem placed_held {q : Hold} (hq : q ≠ .finished) (hmem : tk ∈ (S.scheduler.processers_ p).held q) :
    S.Placed tk := by
  refine ⟨.processer p q, fun p' heq => ?_, hmem⟩
  injection heq with _ heq
  exact hq heq

theorem placed_new (hmem : tk ∈ (S.scheduler.processers_ p).newQueue_) : S.Placed tk :=
  placed_held (q := .new) Hold.noConfusion hmem

theorem placed_runnable (hmem : tk ∈ (S.scheduler.processers_ p).runnableQueue_) : S.Placed tk :=
  placed_held (q := .runnable) Hold.noConfusion hmem

/-- `Steal` comes to the pointers of the Processer it steals from. -/
theorem accesses_avgTotalTasks (hmem : tk ∈ S.scheduler.accesses .avgTotalTasks) :
    S.Placed tk ∨ ∃ a n slist, S.scheduler.dispatcher = .stealRunnable a n slist ∧
      tk ∈ (S.scheduler.processers_ a.i).runningTask_.toList ++
        (S.scheduler.processers_ a.i).nextTask_.toList := by
  have htasks : tk ∈ S.scheduler.dispatcher.tasks → S.Placed tk := placed_shared (g := .tasks)
  have hslist : tk ∈ S.scheduler.dispatcher.slist → S.Placed tk := placed_shared (g := .slist)
  unfold Scheduler.accesses at hmem
  simp only at hmem
  split at hmem
  case h_1 a hd =>
    rw [hd] at htasks
    exact .inl ((List.mem_append.mp hmem).elim htasks placed_new)
  case h_2 a n slist hd =>
    rw [hd] at htasks hslist
    rw [List.append_assoc, List.append_assoc, List.append_assoc] at hmem
    rcases List.mem_append.mp hmem with hmem | hmem
    · exact .inl (htasks hmem)
    · rcases List.mem_append.mp hmem with hmem | hmem
      · exact .inl (hslist hmem)
      · rcases List.mem_append.mp hmem with hmem | hmem
        · exact .inl (placed_runnable hmem)
        · exact .inr ⟨a, n, slist, hd, hmem⟩
  case h_3 a hd =>
    rw [hd] at htasks
    exact .inl (htasks hmem)
  case h_4 a slist hd =>
    rw [hd] at htasks hslist
    rw [List.append_assoc] at hmem
    rcases List.mem_append.mp hmem with hmem | hmem
    · exact .inl (htasks hmem)
    · exact .inl ((List.mem_append.mp hmem).elim hslist placed_new)
  case h_5 tasks hd =>
    rw [hd] at htasks
    exact .inl ((List.mem_append.mp hmem).elim htasks placed_new)
  case h_6 => cases hmem

/-- What a step may touch is in a place of its own, or a pointer of the Processer leads to it. -/
theorem accesses_cases {t : Scheduler} (hs : S.scheduler.step e = some t)
    (hmem : tk ∈ S.scheduler.accesses e) :
    S.Placed tk ∨
      (∃ p, e ∈ [SchedulerStep.process p, .yield p, .suspendBySelfIo p, .runOn p, .finish p] ∧
        (S.scheduler.processers_ p).runningTask_ = some tk) ∨
      ∃ a n slist, e = .avgTotalTasks ∧ S.scheduler.dispatcher = .stealRunnable a n slist ∧
        tk ∈ (S.scheduler.processers_ a.i).runningTask_.toList ++
          (S.scheduler.processers_ a.i).nextTask_.toList := by
  cases e with
  | newProcessThread => cases hmem
  | createTask n => exact .inl (placed_shared (g := .free) hmem)
  | addTask k =>
      unfold Scheduler.accesses at hmem
      simp only at hmem
      split at hmem
      · rename_i tk' p hk
        rcases List.mem_cons.mp hmem with rfl | hmem
        · exact .inl (placed_shared (g := .creating)
            (List.mem_map_of_mem (f := Prod.fst) (List.mem_of_getElem? hk)))
        · exact .inl (placed_new hmem)
      · cases hmem
  | process p =>
      unfold Scheduler.accesses at hmem
      simp only [List.mem_append, Option.mem_toList] at hmem
      rcases hmem with ((hrun | hmem) | hmem) | hmem
      · exact .inr (.inl ⟨p, by simp, hrun⟩)
      · exact .inl (placed_runnable hmem)
      · exact .inl (placed_new hmem)
      · exact .inl (placed_held (q := .adding) Hold.noConfusion hmem)
  | yield p | suspendBySelfIo p | runOn p | finish p =>
      exact .inr (.inl ⟨p, by simp, Option.mem_toList.mp hmem⟩)
  | wakeupBySelfIo tk' =>
      obtain ⟨hsuspended, -⟩ := Option.ite_none_right_eq_some.mp hs
      rw [← List.mem_singleton.mp hmem] at hsuspended
      exact .inl (placed_shared (g := .suspended) hsuspended)
  | wakeupPush k =>
      unfold Scheduler.accesses at hmem
      simp only at hmem
      split at hmem
      · rename_i tk' p hk
        rcases List.mem_cons.mp hmem with rfl | hmem
        · exact .inl (placed_shared (g := .waking)
            (List.mem_map_of_mem (f := Prod.fst) (List.mem_of_getElem? hk)))
        · exact .inl (placed_runnable hmem)
      · cases hmem
  | avgTotalTasks =>
      rcases accesses_avgTotalTasks hmem with hplaced | ⟨a, n, slist, hd, hmem⟩
      · exact .inl hplaced
      · exact .inr (.inr ⟨a, n, slist, rfl, hd, hmem⟩)

theorem Overlay.accesses_scheduler (h : S.Overlay dead) (hapart : S.Apart (.scheduler e))
    (hs : S.schedulerStep e = some T) (hmem : tk ∈ S.scheduler.accesses e) : tk ∉ S.deleted := by
  have hpasses := passes_of_step hs
  rcases accesses_cases hpasses.step hmem with ⟨i, hi, hplace⟩ | ⟨p, he, hrun⟩ |
    ⟨a, n, slist, rfl, hd, hptr⟩
  · exact h.not_deleted (fun p hp => absurd hp (hi p)) hplace
  · have hin : S.out p = false := by
      have hinside := inside_of_mayStep hpasses.may
      simp only [List.mem_cons, List.not_mem_nil, or_false] at he
      rcases he with rfl | rfl | rfl | rfl | rfl <;> exact hinside
    have hdead : tk ∉ dead := by
      intro hdead
      have hcreating : tk ∈ (S.scheduler.forget S.out dead).contents (.shared .creating) :=
        Scheduler.mem_creating_of_dead hdead
      have hrun' : ((S.scheduler.forget S.out dead).processers_ p).runningTask_ = some tk := by
        rw [Scheduler.processers_forget hin]
        exact hrun
      rcases h.coherent.place hrun' with ⟨q, -, hplace⟩ | ⟨g, hg, hplace⟩
      · exact Scheduler.processer_ne_shared (h.coherent.tidy.place_unique hplace hcreating)
      · have hplace : tk ∈ (S.scheduler.forget S.out dead).contents (.shared g) := hplace
        have heq := h.coherent.tidy.place_unique hplace hcreating
        injection heq with heq
        subst heq
        simp at hg
    exact fun hdeleted => hdead ((h.mem_dead tk).mpr (.inl hdeleted))
  · unfold Apart ApartAt at hapart
    rw [hd] at hapart
    exact hapart tk hptr

/-- No step comes to a task that has been deleted. -/
theorem Overlay.untouched (h : S.Overlay dead) (hapart : S.Apart a) (hs : S.step a = some T)
    (hmem : tk ∈ S.accesses a) : tk ∉ S.deleted := by
  cases a with
  | scheduler e => exact h.accesses_scheduler hapart hs hmem
  | release p =>
      unfold accesses at hmem
      simp only at hmem
      split at hmem
      · rename_i q hexit
        rw [← Processer.held_hold] at hmem
        apply h.not_deleted (i := .processer p q.hold) ?_ hmem
        rintro p' heq
        injection heq with _ heq
        cases q <;> cases heq
      · rename_i q task hexit
        apply h.held p tk
        rw [hexit]
        exact Option.mem_toList.mp hmem
      · cases hmem
  | started dispatcher | dispatcherLoop | stopTrack | isStop p | stop => cases hmem

end Accesses

section Contract

structure Sound (S : Shutdown) : Prop where
  overlay : ∃ dead, S.Overlay dead
  bounded : S.scheduler.Bounded
  joined : S.Joined

theorem sound_make : make.Sound where
  overlay := ⟨[], overlay_make⟩
  bounded := Scheduler.bounded_make
  joined := joined_make

theorem Sound.step (h : S.Sound) (hs : S.step a = some T) : T.Sound := by
  obtain ⟨dead, hoverlay⟩ := h.overlay
  exact ⟨hoverlay.step hs, hoverlay.bounded_step h.bounded hs, h.joined.step hs⟩

theorem Sound.not_pending (h : S.Sound) (hreturned : S.stop = .returned) : ¬ S.Pending tk := by
  obtain ⟨dead, hoverlay⟩ := h.overlay
  obtain ⟨hdispatcher, hexited⟩ := h.joined.returned hreturned
  have hidle : S.scheduler.dispatcher = .idle := by
    apply h.joined.idle
    · rw [hdispatcher]
      exact DispatchThread.noConfusion
    · rw [hdispatcher]
      exact DispatchThread.noConfusion
  rintro (⟨p, hlocal⟩ | ⟨i, hopen, hmem⟩)
  · have hp : p < S.scheduler.size := by
      apply hoverlay.within p
      apply decide_eq_true
      intro hprocess
      rw [hprocess] at hlocal
      cases hlocal
    rw [hexited p hp] at hlocal
    cases hlocal
  · cases i with
    | processer p q =>
        have hp : p < S.scheduler.size := h.bounded.exists_of_mem hmem
        change Opens (S.exit p) q at hopen
        rw [hexited p hp] at hopen
        cases q with
        | runnable | new | finished => exact hopen.elim
        | adding => cases hopen
    | shared g =>
        rcases hopen with rfl | rfl
        · change tk ∈ S.scheduler.dispatcher.tasks at hmem
          rw [hidle] at hmem
          cases hmem
        · change tk ∈ S.scheduler.dispatcher.slist at hmem
          rw [hidle] at hmem
          cases hmem

/-- No task is deleted twice; those that were queued when `stop_` was set, and have neither
ended nor been suspended since, have been deleted when `Stop` has returned; and the next step
of a thread, if the dispatcher keeps apart from the tasks that `ReleaseTask` deletes, comes to
no task that has been deleted. -/
structure Releases (S : Shutdown) : Prop where
  once : S.deleted.Nodup
  complete : S.stop = .returned → ∀ tk ∈ S.queued, tk ∉ S.ceased → S.deleted.count tk = 1
  untouched : ∀ a T, S.Apart a → S.step a = some T → ∀ tk ∈ S.accesses a, tk ∉ S.deleted

/-- In every run in which the dispatcher keeps apart from `ReleaseTask`. -/
theorem releases_of_reach (h : Machine.Reach step Apart make S) : S.Releases := by
  have hsound : ∀ {U : Shutdown}, Machine.Reach step Apart make U → U.Sound := fun hU =>
    hU.invariant sound_make fun _ _ _ hsound _ hs => hsound.step hs
  have haccounts : S.Accounts :=
    h.invariant_of (fun _ hU => hsound hU) nofun fun _ _ _ hU haccounts hapart hs =>
      haccounts.step hU.joined hapart hs
  obtain ⟨dead, hoverlay⟩ := (hsound h).overlay
  refine ⟨hoverlay.nodup, ?_, ?_⟩
  · intro hreturned tk hqueued hceased
    have hstop : S.stop_ = true := by
      rw [← Bool.not_eq_false, (hsound h).joined.stop_, hreturned]
      exact StopPc.noConfusion
    apply List.count_eq_one_of_mem hoverlay.nodup
    rcases haccounts hstop tk hqueued with hmem | hmem | hpending
    · exact absurd hmem hceased
    · exact hmem
    · exact absurd hpending ((hsound h).not_pending hreturned)
  · intro a T hapart hs tk hmem
    exact hoverlay.untouched hapart hs hmem

/-- `Stop` is called while the dispatcher deals out tasks: Processer 1 deletes its tasks before
and Processer 0 after the dispatcher has ended. -/
def stopWhileDealing : List ShutdownStep :=
  List.flatten
    [[.scheduler .newProcessThread], .replicate 3 (.scheduler (.createTask 8)),
      .replicate 3 (.scheduler (.addTask 0)), [.started true, .dispatcherLoop],
      .replicate 6 (.scheduler .avgTotalTasks), [.stop, .isStop 1], .replicate 6 (.release 1),
      .replicate 7 (.scheduler .avgTotalTasks), [.dispatcherLoop, .isStop 0],
      .replicate 9 (.release 0), .replicate 4 .stop]

theorem releases_stopWhileDealing : ∃ S, Machine.run step Apart make stopWhileDealing = some S ∧
    S.stop = .returned ∧ S.queued = [0, 2, 1] ∧ S.deleted = [1, 0, 2] ∧ S.Releases := by
  have hrun : ∃ S, Machine.run step Apart make stopWhileDealing = some S ∧
      S.stop = .returned ∧ S.queued = [0, 2, 1] ∧ S.deleted = [1, 0, 2] :=
    Machine.exists_of_run (by decide +kernel)
  obtain ⟨S, hS, hstop, hqueued, hdeleted⟩ := hrun
  exact ⟨S, hS, hstop, hqueued, hdeleted, releases_of_reach (Machine.reach_of_run _ hS)⟩

/-- The only task runs when `Stop` is called, and its function returns afterwards. -/
def endAfterStop : List ShutdownStep :=
  List.flatten
    [[.scheduler (.createTask 8), .scheduler (.addTask 0), .started false, .isStop 0],
      .replicate 5 (.scheduler (.process 0)),
      [.isStop 0, .scheduler (.process 0), .stop, .scheduler (.finish 0)],
      .replicate 5 (.scheduler (.process 0)), [.isStop 0], .replicate 3 (.release 0),
      .replicate 3 .stop]

def suspendAfterStop : List ShutdownStep :=
  List.flatten
    [[.scheduler (.createTask 8), .scheduler (.addTask 0), .started false, .isStop 0],
      .replicate 5 (.scheduler (.process 0)),
      [.isStop 0, .scheduler (.process 0), .stop, .scheduler (.suspendBySelfIo 0)],
      .replicate 5 (.scheduler (.process 0)), [.isStop 0], .replicate 3 (.release 0),
      .replicate 3 .stop]

/-- A task that ends after `stop_` has been set goes to `free_task_map_`, and one that suspends
itself stays with who is to wake it up. -/
theorem cached_endAfterStop :
    (∃ S, Machine.run step Apart make endAfterStop = some S ∧
      S.stop = .returned ∧ 0 ∈ S.queued ∧ 0 ∉ S.deleted ∧
      S.scheduler.free_task_map_.values = [0]) ∧
    ∃ S, Machine.run step Apart make suspendAfterStop = some S ∧
      S.stop = .returned ∧ 0 ∈ S.queued ∧ 0 ∉ S.deleted ∧ S.scheduler.suspended = [0] :=
  ⟨Machine.exists_of_run (by decide +kernel), Machine.exists_of_run (by decide +kernel)⟩

/-! Where the dispatcher does not keep apart. -/

/-- The dispatcher is in `Steal` of Processer 0, which leaves `Process` with `runningTask_` set
and deletes its two tasks. -/
def stealAfterExit : List ShutdownStep :=
  List.flatten
    [.replicate 2 (.scheduler (.createTask 8)), .replicate 2 (.scheduler (.addTask 0)),
      [.scheduler .newProcessThread, .started true, .isStop 0],
      .replicate 5 (.scheduler (.process 0)),
      [.isStop 0, .scheduler (.process 0), .scheduler (.yield 0)],
      .replicate 2 (.scheduler (.process 0)), [.dispatcherLoop],
      .replicate 7 (.scheduler .avgTotalTasks), [.stop, .isStop 0], .replicate 7 (.release 0)]

/-- `Steal` takes a `runningTask_` out of the queue that has been deleted. -/
theorem touches_stealAfterExit : ∃ S, Machine.run step Apart make stealAfterExit = some S ∧
    ¬ S.Apart (.scheduler .avgTotalTasks) ∧ (S.step (.scheduler .avgTotalTasks)).isSome ∧
    1 ∈ S.accesses (.scheduler .avgTotalTasks) ∧ 1 ∈ S.deleted :=
  Machine.exists_of_run (by decide +kernel)

/-- The thread of Processer 1 has exited when the dispatcher gives it a task. -/
def addAfterExit : List ShutdownStep :=
  List.flatten
    [.replicate 2 (.scheduler (.createTask 8)), .replicate 2 (.scheduler (.addTask 0)),
      [.scheduler .newProcessThread, .started true, .dispatcherLoop],
      .replicate 6 (.scheduler .avgTotalTasks), [.stop, .isStop 1], .replicate 3 (.release 1),
      .replicate 8 (.scheduler .avgTotalTasks), [.dispatcherLoop, .isStop 0],
      .replicate 6 (.release 0), .replicate 4 .stop]

/-- The task stays in `newQueue_` for good. -/
theorem forgets_addAfterExit : ∃ S, Machine.run step Machine.Free make addAfterExit = some S ∧
    S.stop = .returned ∧ 1 ∈ S.queued ∧ 1 ∉ S.ceased ∧ S.deleted = [0] ∧
    (S.scheduler.processers_ 1).newQueue_ = [1] :=
  Machine.exists_of_run (by decide +kernel)

end Contract

end Shutdown

end CppGo.Scheduling
