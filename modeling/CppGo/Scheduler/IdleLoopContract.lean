import CppGo.Lib.Observer
import CppGo.Scheduler.IdleLoop

/-!
# Sleeping on work

A task that `WakeupBySelfIO` has put into `runnableQueue_` is never left behind in a sleep:
`InterrupteWaitLoop` follows it.  `AddTask` and the timers have no such call, and for them
a history says what has been done since the loop has looked at `newQueue_` and at the
timers.
-/

namespace CppGo.Scheduling

open CppGo.Lib CppGo.Lib.Machine CppGo.Timers

/-- The loop has found `runnableQueue_` empty and goes to `epoll_wait`. -/
def LoopPc.committed : LoopPc → Bool
  | addEmpty idle => idle
  | duration | enter _ | wait _ => true
  | _ => false

/-- The loop has looked at `newQueue_`, and what it has found there is taken out. -/
def LoopPc.looked : LoopPc → Bool
  | addPush _ _ | frontAgain | duration | enter _ | wait _ => true
  | _ => false

namespace IdleLoop

/-- The Processer is in `epoll_wait`, for more than `MIN_WAITE_TIME` to come, and no
interrupt is there or on its way. -/
def Asleep (s : IdleLoop) : Prop :=
  minWaiteTime * millisecond < s.remaining ∧ s.pending = false ∧ s.notifiers = 0

instance (s : IdleLoop) : Decidable s.Asleep := inferInstanceAs (Decidable (_ ∧ _ ∧ _))

/-- There is a task to run, or a timer that is due before the time-out. -/
def HasWork (s : IdleLoop) : Prop :=
  s.runnableQueue_ ≠ [] ∨ s.newQueue_ ≠ [] ∨
    ∃ n ∈ s.timer_manager_.timer_map_.nodes, n.key < s.now + s.remaining

def Oversleeps (s : IdleLoop) : Prop := s.Asleep ∧ s.HasWork

/-- No task is in `newQueue_` and no timer is due before the time-out. -/
def Clear (s : IdleLoop) : Prop :=
  s.newQueue_ = [] ∧ ∀ n ∈ s.timer_manager_.timer_map_.nodes, s.now + s.remaining ≤ n.key

instance (s : IdleLoop) : Decidable s.Clear := inferInstanceAs (Decidable (_ ∧ _))

/-- What `duration_cast` cuts off when `GetLastDuration` has found a timer. -/
def cutOff (m : TimerManager) (now : Int) : Int :=
  match m.timer_map_.nodes.head? with
  | none => 0
  | some begin => begin.key - now - getLastDuration m now * millisecond

end IdleLoop

/-- What the other threads and the clock have done behind the back of the loop: `tasks` is
what `AddTask` has been given since the loop last looked at `newQueue_`, and the rest is
since `GetLastDuration`, the deadlines of the new timers, the time that has passed, and
`cut`, which `GetLastDuration` itself has left of it. -/
structure Meanwhile where
  tasks : TaskList
  timers : List Int
  elapsed : Nat
  cut : Int
deriving DecidableEq, Repr

namespace Meanwhile

def start : Meanwhile := { tasks := [], timers := [], elapsed := 0, cut := 0 }

def next (s : IdleLoop) (w : Meanwhile) : LoopEvent → Meanwhile
  | .process =>
      match s.pc with
      | .addEmpty _ | .addPop _ => { w with tasks := [] }
      | .duration =>
          { w with timers := [], elapsed := 0, cut := IdleLoop.cutOff s.timer_manager_ s.now }
      | _ => w
  | .addTask elements => { w with tasks := w.tasks ++ elements }
  | .addTimer timepoint _ => { w with timers := timepoint :: w.timers }
  | .tick d => { w with elapsed := w.elapsed + d }
  | _ => w

/-- No task has been added, no timer that is due before `finish`, and the time has been that
of one rounding. -/
def Idle (w : Meanwhile) (finish : Int) : Prop :=
  w.tasks = [] ∧ (∀ timepoint ∈ w.timers, finish ≤ timepoint) ∧ w.elapsed ≤ w.cut

instance (w : Meanwhile) (finish : Int) : Decidable (w.Idle finish) :=
  inferInstanceAs (Decidable (_ ∧ _ ∧ _))

end Meanwhile

namespace IdleLoop

/-- When a sleep of more than `MIN_WAITE_TIME` begins that nobody is about to interrupt,
nobody has done anything since the loop has looked, and until its end nobody adds a task
or a timer that is due before it. -/
def Careful (s : IdleLoop) (w : Meanwhile) : LoopEvent → Prop
  | .process =>
      match s.pc with
      | .enter timeout =>
          minWaiteTime < timeout → s.pending = false → s.notifiers = 0 →
            w.Idle (s.now + timeout * millisecond)
      | _ => True
  | .addTask elements => s.Asleep → elements = []
  | .addTimer timepoint _ => s.Asleep → s.now + s.remaining ≤ timepoint
  | _ => True

instance (s : IdleLoop) (w : Meanwhile) : ∀ a, Decidable (s.Careful w a)
  | .process => by
      unfold Careful
      cases s.pc <;> infer_instance
  | .addTask elements => inferInstanceAs (Decidable (s.Asleep → elements = []))
  | .addTimer timepoint _ =>
      inferInstanceAs (Decidable (s.Asleep → s.now + s.remaining ≤ timepoint))
  | .epollReturn _ | .wakeupBySelfIo _ | .leave _ | .stealNew _ | .stealRunnable _ | .stopTimer _
  | .notify _ | .interrupteWaitLoop | .tick _ => .isTrue trivial

/-- Whoever has put a task behind the loop's back into `runnableQueue_` has interrupted the
wait, or is about to. -/
def Heard (s : IdleLoop) : Prop :=
  s.pc.committed = true → s.runnableQueue_ ≠ [] → s.pending = true ∨ 0 < s.notifiers

variable {s t : IdleLoop} {a : LoopEvent} {now : Int}

/-! ## What the steps keep -/

theorem heard_make : (make now).Heard := by
  intro hpc
  cases hpc

theorem Heard.of_le (hs : s.Heard) (hpc : t.pc = s.pc)
    (hrunnable : t.runnableQueue_ ≠ [] → s.runnableQueue_ ≠ [])
    (hpending : t.pending = s.pending) (hnotifiers : t.notifiers = s.notifiers) : t.Heard := by
  intro hcommitted hne
  rw [hpending, hnotifiers]
  rw [hpc] at hcommitted
  exact hs hcommitted (hrunnable hne)

theorem heard_of_pc (hpc : t.pc.committed = false) : t.Heard := by
  intro hcommitted
  rw [hpc] at hcommitted
  cases hcommitted

theorem committed_ran (r : TimerManager × List Observation) : (s.ran r).pc.committed = false := by
  unfold ran
  dsimp only
  split <;> rfl

/-- What a step of the loop does about a sleep: it has work at hand, it goes on towards
`epoll_wait`, or it calls it. -/
inductive Outcome (s t : IdleLoop) : Prop
  | working (hpc : t.pc.committed = false)
  | goesOn (pc : LoopPc) (ht : t = { s with pc := pc }) (hpc : ∀ deadline, pc ≠ .wait deadline)
      (hs : s.pc.committed = true ∨ s.runnableQueue_ = [])
  | sleeps (timeout : Int) (hpc : s.pc = .enter timeout) (ht : t = s.epollWait timeout)

theorem outcome_front {pc : LoopPc} (hpc : ∀ deadline, pc ≠ .wait deadline) :
    Outcome s { s with pc := if s.runnableQueue_.front.isSome then .loop else pc } := by
  cases hfront : s.runnableQueue_.front with
  | none => exact .goesOn pc rfl hpc (.inr (List.head?_eq_none_iff.mp hfront))
  | some tk => exact .working rfl

theorem process_outcome (h : s.process = some t) : Outcome s t := by
  unfold process at h
  cases hpc : s.pc with
  | front =>
      rw [hpc] at h
      cases h
      apply outcome_front
      simp
  | addEmpty idle =>
      rw [hpc] at h
      cases h
      cases idle with
      | true =>
          apply Outcome.goesOn _ rfl _ (.inl (by rw [hpc]; rfl))
          intro deadline
          split <;> simp
      | false =>
          apply Outcome.working
          dsimp only
          split <;> rfl
  | addPush idle elements =>
      rw [hpc] at h
      cases h
      apply Outcome.working
      cases idle <;> rfl
  | frontAgain =>
      rw [hpc] at h
      cases h
      apply outcome_front
      simp
  | duration =>
      rw [hpc] at h
      cases h
      exact .goesOn _ rfl (by simp) (.inl (by rw [hpc]; rfl))
  | enter timeout =>
      rw [hpc] at h
      cases h
      exact .sleeps timeout hpc rfl
  | wait deadline =>
      rw [hpc] at h
      cases h
  | reset =>
      rw [hpc] at h
      cases h
      apply Outcome.working
      unfold recv
      dsimp only
      split <;> rfl
  | wakeupTimers =>
      rw [hpc] at h
      cases h
      exact .working (committed_ran _)
  | callback =>
      rw [hpc] at h
      dsimp only at h
      split at h
      next =>
        obtain ⟨-, h⟩ := Option.ite_none_right_eq_some.mp h
        cases h
        exact .working (committed_ran _)
      next => cases h
  | addPop idle | events | loop =>
      rw [hpc] at h
      cases h
      exact .working rfl

theorem heard_process (hs : s.Heard) (h : s.process = some t) : t.Heard := by
  cases process_outcome h with
  | working hpc => exact heard_of_pc hpc
  | goesOn pc ht hpc hquiet =>
      subst ht
      intro _ hne
      rcases hquiet with hcommitted | hempty
      · exact hs hcommitted hne
      · exact absurd hempty hne
  | sleeps timeout hpc ht =>
      subst ht
      exact fun _ hne => hs (by rw [hpc]; rfl) hne

theorem epollReturn_cases {interrupted : Bool} (h : s.epollReturn interrupted = some t) :
    t.pc = .reset ∨ t.pc = .events := by
  unfold epollReturn at h
  split at h
  next =>
    split at h
    · obtain ⟨-, h⟩ := Option.ite_none_right_eq_some.mp h
      cases h
      exact .inl rfl
    · cases h
      exact .inr rfl
  next => cases h

theorem committed_of_working {pc : LoopPc} (hpc : pc.working = true) : pc.committed = false := by
  cases pc <;> first | rfl | cases hpc

theorem looked_of_working {pc : LoopPc} (hpc : pc.working = true) : pc.looked = false := by
  cases pc <;> first | rfl | cases hpc

theorem mem_of_popBack {q : TaskQueue} {n : Nat} {tk : TaskPtr}
    (htk : tk ∈ (q.popBackWithoutLock n).1) : tk ∈ q := by
  rw [← q.popBack_append (n := n)]
  exact List.mem_append_left _ htk

theorem ne_nil_of_popBack {q : TaskQueue} {n : Nat} (hne : (q.popBackWithoutLock n).1 ≠ []) :
    q ≠ [] := by
  rintro rfl
  exact hne rfl

theorem heard_step (hs : s.Heard) (h : s.step a = some t) : t.Heard := by
  cases a with
  | process => exact heard_process hs h
  | epollReturn interrupted =>
      apply heard_of_pc
      rcases epollReturn_cases h with hpc | hpc <;> rw [hpc] <;> rfl
  | wakeupBySelfIo tk =>
      obtain ⟨hpc, h⟩ := Option.ite_none_right_eq_some.mp h
      cases h
      exact heard_of_pc (committed_of_working hpc)
  | leave tk =>
      obtain ⟨hpc, h⟩ := Option.ite_none_right_eq_some.mp h
      cases h
      apply heard_of_pc
      rw [hpc]
      rfl
  | addTask elements =>
      cases h
      exact hs
  | stealNew n =>
      cases h
      exact hs
  | stealRunnable n =>
      cases h
      exact hs.of_le rfl ne_nil_of_popBack rfl rfl
  | addTimer timepoint element =>
      cases h
      exact hs
  | stopTimer it =>
      cases h
      exact hs
  | notify tk =>
      cases h
      exact fun _ _ => .inr (Nat.succ_pos _)
  | interrupteWaitLoop =>
      obtain ⟨-, h⟩ := Option.ite_none_right_eq_some.mp h
      cases h
      exact fun _ _ => .inl (by simp [pending])
  | tick d =>
      cases h
      exact hs

/-! ## Who is to blame for a sleep on work -/

theorem remaining_of_wait {deadline : Int} (hpc : s.pc = .wait deadline) :
    s.remaining = deadline - s.now := by
  unfold remaining
  rw [hpc]

theorem Asleep.wait (h : s.Asleep) : ∃ deadline, s.pc = .wait deadline := by
  have hlong := h.1
  unfold remaining at hlong
  split at hlong
  next deadline hwait => exact ⟨deadline, hwait⟩
  next => exact absurd hlong (by decide)

theorem HasWork.runnable (h : s.HasWork) (hclear : s.Clear) : s.runnableQueue_ ≠ [] := by
  rcases h with h | h | ⟨n, hn, hlt⟩
  · exact h
  · exact absurd hclear.1 h
  · have hle := hclear.2 n hn
    omega

theorem Heard.not_oversleeps (hs : s.Heard) (hclear : s.Asleep → s.Clear) : ¬s.Oversleeps := by
  rintro ⟨hasleep, hwork⟩
  have hwait : s.pc.committed = true := by
    obtain ⟨deadline, hpc⟩ := hasleep.wait
    rw [hpc]
    rfl
  rcases hs hwait (hwork.runnable (hclear hasleep)) with hpending | hnotifiers
  · rw [hasleep.2.1] at hpending
    cases hpending
  · have hzero := hasleep.2.2
    omega

theorem process_wait {deadline : Int} (h : s.process = some t) (hwait : t.pc = .wait deadline) :
    ∃ timeout, s.pc = .enter timeout ∧ t = s.epollWait timeout := by
  cases process_outcome h with
  | working hpc =>
      rw [hwait] at hpc
      cases hpc
  | goesOn pc ht hpc =>
      subst ht
      exact absurd hwait (hpc deadline)
  | sleeps timeout hpc ht => exact ⟨timeout, hpc, ht⟩

/-! ## What the loop has seen, and what it cannot have seen -/

/-- What `newQueue_` holds when the loop has looked there has been added since, and a timer
that is due before the end of the sleep to come has been created since `GetLastDuration`,
or the clock has gone on. -/
structure Noted (s : IdleLoop) (w : Meanwhile) : Prop where
  tasks : s.pc.looked = true → ∀ tk ∈ s.newQueue_, tk ∈ w.tasks
  timers : ∀ timeout, s.pc = .enter timeout →
    ∀ n ∈ s.timer_manager_.timer_map_.nodes,
      n.key ∈ w.timers ∨ s.now - w.elapsed + timeout * millisecond + w.cut ≤ n.key

variable {w : Meanwhile}

theorem noted_make : (make now).Noted .start := by
  constructor
  · intro hpc
    cases hpc
  · intro timeout hpc
    cases hpc

theorem noted_of_pc (hpc : t.pc.looked = false) : t.Noted w := by
  constructor
  · intro hlooked
    rw [hpc] at hlooked
    cases hlooked
  · intro timeout henter
    rw [henter] at hpc
    cases hpc

theorem noted_of_empty (hqueue : t.newQueue_ = []) (hpc : ∀ timeout, t.pc ≠ .enter timeout) :
    t.Noted w := by
  constructor
  · intro _ tk htk
    rw [hqueue] at htk
    cases htk
  · intro timeout henter
    exact absurd henter (hpc timeout)

/-- The loop goes on from one place behind its look to another, before `GetLastDuration` or
behind `epoll_wait`. -/
theorem Noted.move {pc : LoopPc} (h : s.Noted w) (hlooked : s.pc.looked = true)
    (hpc : ∀ timeout, pc ≠ .enter timeout) : ({ s with pc := pc } : IdleLoop).Noted w :=
  ⟨fun _ => h.tasks hlooked, fun timeout henter => absurd henter (hpc timeout)⟩

/-- `GetLastDuration` has found the first deadline, and all others are behind it. -/
theorem key_le_of_mem {m : TimerManager} {n : Node Int TimerElement}
    (hn : n ∈ m.timer_map_.nodes) :
    now + getLastDuration m now * millisecond + cutOff m now ≤ n.key := by
  unfold cutOff
  have hsorted := m.timer_map_.sorted
  cases hnodes : m.timer_map_.nodes with
  | nil =>
      rw [hnodes] at hn
      cases hn
  | cons begin rest =>
      rw [hnodes] at hn hsorted
      have hle : begin.key ≤ n.key := by
        rcases List.mem_cons.mp hn with rfl | hn
        · exact le_rfl
        · exact (List.rel_of_pairwise_cons hsorted hn).key_le
      simp only [List.head?_cons]
      omega

theorem noted_duration (h : s.Noted w) (hpc : s.pc = .duration) :
    ({ s with pc := .enter (getLastDuration s.timer_manager_ s.now) } : IdleLoop).Noted
      (w.next s .process) := by
  have hnext : w.next s .process =
      { w with timers := [], elapsed := 0, cut := cutOff s.timer_manager_ s.now } := by
    unfold Meanwhile.next
    rw [hpc]
  rw [hnext]
  constructor
  · intro _
    apply h.tasks
    rw [hpc]
    rfl
  · intro timeout henter n hn
    cases henter
    have hle : s.now + getLastDuration s.timer_manager_ s.now * millisecond +
        cutOff s.timer_manager_ s.now ≤ n.key := key_le_of_mem hn
    exact .inr (by simpa using hle)

theorem looked_ran (r : TimerManager × List Observation) : (s.ran r).pc.looked = false := by
  unfold ran
  dsimp only
  split <;> rfl

theorem noted_process (hs : s.Noted w) (h : s.process = some t) :
    t.Noted (w.next s .process) := by
  unfold process at h
  cases hpc : s.pc with
  | front =>
      rw [hpc] at h
      cases h
      apply noted_of_pc
      dsimp only
      split <;> rfl
  | addEmpty idle =>
      rw [hpc] at h
      cases h
      cases hempty : s.newQueue_.isEmpty with
      | true =>
          refine noted_of_empty (t := { s with pc := _ }) (List.isEmpty_iff.mp hempty) ?_
          intro timeout
          cases idle <;> simp
      | false =>
          apply noted_of_pc
          simp [LoopPc.looked]
  | addPop idle =>
      rw [hpc] at h
      cases h
      exact noted_of_empty rfl (by simp)
  | addPush idle elements =>
      rw [hpc] at h
      cases h
      have hnext : w.next s .process = w := by
        unfold Meanwhile.next
        rw [hpc]
      rw [hnext]
      have hmove : ({ s with pc := if idle then .frontAgain else .front } : IdleLoop).Noted w :=
        hs.move (by rw [hpc]; rfl) (by intro timeout; cases idle <;> simp)
      exact ⟨hmove.tasks, hmove.timers⟩
  | frontAgain =>
      rw [hpc] at h
      cases h
      have hnext : w.next s .process = w := by
        unfold Meanwhile.next
        rw [hpc]
      rw [hnext]
      apply hs.move (by rw [hpc]; rfl)
      intro timeout
      split <;> simp
  | duration =>
      rw [hpc] at h
      cases h
      exact noted_duration hs hpc
  | enter timeout =>
      rw [hpc] at h
      cases h
      have hnext : w.next s .process = w := by
        unfold Meanwhile.next
        rw [hpc]
      rw [hnext]
      exact hs.move (by rw [hpc]; rfl) (by simp)
  | wait deadline =>
      rw [hpc] at h
      cases h
  | reset =>
      rw [hpc] at h
      cases h
      apply noted_of_pc
      unfold recv
      dsimp only
      split <;> rfl
  | wakeupTimers =>
      rw [hpc] at h
      cases h
      exact noted_of_pc (looked_ran _)
  | callback =>
      rw [hpc] at h
      dsimp only at h
      split at h
      next =>
        obtain ⟨-, h⟩ := Option.ite_none_right_eq_some.mp h
        cases h
        exact noted_of_pc (looked_ran _)
      next => cases h
  | events | loop =>
      rw [hpc] at h
      cases h
      exact noted_of_pc rfl

theorem noted_step (hs : s.Noted w) (h : s.step a = some t) : t.Noted (w.next s a) := by
  cases a with
  | process => exact noted_process hs h
  | epollReturn interrupted =>
      apply noted_of_pc
      rcases epollReturn_cases h with hpc | hpc <;> rw [hpc] <;> rfl
  | wakeupBySelfIo tk =>
      obtain ⟨hpc, h⟩ := Option.ite_none_right_eq_some.mp h
      cases h
      exact noted_of_pc (looked_of_working hpc)
  | leave tk =>
      obtain ⟨hpc, h⟩ := Option.ite_none_right_eq_some.mp h
      cases h
      apply noted_of_pc
      rw [hpc]
      rfl
  | addTask elements =>
      cases h
      refine ⟨fun hlooked tk htk => ?_, hs.timers⟩
      rcases List.mem_append.mp htk with htk | htk
      · exact List.mem_append_left _ (hs.tasks hlooked tk htk)
      · exact List.mem_append_right _ htk
  | stealNew n =>
      cases h
      refine ⟨fun hlooked tk htk => hs.tasks hlooked tk ?_, hs.timers⟩
      exact mem_of_popBack htk
  | addTimer timepoint element =>
      cases h
      refine ⟨hs.tasks, fun timeout hpc n hn => ?_⟩
      rcases Multimap.mem_insert.mp hn with rfl | hn
      · exact .inl (List.mem_cons_self)
      · exact (hs.timers timeout hpc n hn).imp_left (List.mem_cons_of_mem _)
  | stopTimer it =>
      cases h
      exact ⟨hs.tasks, fun timeout hpc n hn =>
        hs.timers timeout hpc n (Multimap.mem_erase.mp hn).1⟩
  | tick d =>
      cases h
      refine ⟨hs.tasks, fun timeout hpc n hn => ?_⟩
      refine (hs.timers timeout hpc n hn).imp_right fun hle => ?_
      simp only [Meanwhile.next]
      omega
  | stealRunnable n | notify tk =>
      cases h
      exact ⟨hs.tasks, hs.timers⟩
  | interrupteWaitLoop =>
      obtain ⟨-, h⟩ := Option.ite_none_right_eq_some.mp h
      cases h
      exact ⟨hs.tasks, hs.timers⟩

/-! ## Sleeps are clear -/

/-- A long sleep begins: what the history does not know cannot be there. -/
theorem clear_epollWait {timeout : Int} (hs : s.Noted w) (hpc : s.pc = .enter timeout)
    (hcareful : s.Careful w .process) (hasleep : (s.epollWait timeout).Asleep) :
    (s.epollWait timeout).Clear := by
  have hremaining : (s.epollWait timeout).remaining = timeout * millisecond := by
    show s.now + timeout * millisecond - s.now = _
    omega
  obtain ⟨hlong, hpending, hnotifiers⟩ := hasleep
  rw [hremaining] at hlong
  have hlong : minWaiteTime < timeout := by
    unfold millisecond at hlong
    omega
  unfold Careful at hcareful
  rw [hpc] at hcareful
  obtain ⟨htasks, htimers, helapsed⟩ := hcareful hlong hpending hnotifiers
  constructor
  · rw [List.eq_nil_iff_forall_not_mem]
    intro tk htk
    have hmem := hs.tasks (by rw [hpc]; rfl) tk htk
    rw [htasks] at hmem
    cases hmem
  · intro n hn
    rw [hremaining]
    show s.now + timeout * millisecond ≤ n.key
    rcases hs.timers timeout hpc n hn with hnew | hold
    · exact htimers n.key hnew
    · omega

theorem clear_step (hs : s.Asleep → s.Clear) (hnoted : s.Noted w) (hcareful : s.Careful w a)
    (h : s.step a = some t) : t.Asleep → t.Clear := by
  intro hasleep
  obtain ⟨deadline, hwait⟩ := hasleep.wait
  cases a with
  | process =>
      obtain ⟨timeout, hpc, rfl⟩ := process_wait h hwait
      exact clear_epollWait hnoted hpc hcareful hasleep
  | epollReturn interrupted =>
      rcases epollReturn_cases h with hpc | hpc <;> rw [hpc] at hwait <;> cases hwait
  | wakeupBySelfIo tk =>
      obtain ⟨hpc, h⟩ := Option.ite_none_right_eq_some.mp h
      cases h
      rw [show s.pc = .wait deadline from hwait] at hpc
      cases hpc
  | leave tk =>
      obtain ⟨hpc, h⟩ := Option.ite_none_right_eq_some.mp h
      cases h
      rw [show s.pc = .wait deadline from hwait] at hpc
      cases hpc
  | addTask elements =>
      cases h
      have hclear := hs hasleep
      refine ⟨?_, hclear.2⟩
      show s.newQueue_ ++ elements = []
      rw [hclear.1, hcareful hasleep]
      rfl
  | stealNew n =>
      cases h
      have hclear := hs hasleep
      refine ⟨?_, hclear.2⟩
      by_contra hne
      exact ne_nil_of_popBack hne hclear.1
  | stealRunnable n =>
      cases h
      exact hs hasleep
  | addTimer timepoint element =>
      cases h
      have hclear := hs hasleep
      refine ⟨hclear.1, fun n hn => ?_⟩
      rcases Multimap.mem_insert.mp hn with rfl | hn
      · exact hcareful hasleep
      · exact hclear.2 n hn
  | stopTimer it =>
      cases h
      have hclear := hs hasleep
      exact ⟨hclear.1, fun n hn => hclear.2 n (Multimap.mem_erase.mp hn).1⟩
  | notify tk =>
      cases h
      exact absurd hasleep.2.2 (Nat.succ_ne_zero _)
  | interrupteWaitLoop =>
      obtain ⟨-, h⟩ := Option.ite_none_right_eq_some.mp h
      cases h
      have hpending := hasleep.2.1
      simp [pending] at hpending
  | tick d =>
      cases h
      have hold : s.remaining = deadline - s.now := remaining_of_wait hwait
      have hnew := remaining_of_wait hwait
      obtain ⟨hlong, hquiet⟩ := hasleep
      rw [hnew] at hlong
      dsimp only at hlong
      have hclear := hs ⟨by rw [hold]; omega, hquiet⟩
      refine ⟨hclear.1, fun n hn => ?_⟩
      have hle := hclear.2 n hn
      rw [hnew]
      rw [hold] at hle
      omega

structure Alert (w : IdleLoop × Meanwhile) : Prop where
  heard : w.1.Heard
  clear : w.1.Asleep → w.1.Clear
  noted : w.1.Noted w.2

theorem alert_make : Alert (make now, .start) := by
  refine ⟨heard_make, fun hasleep => ?_, noted_make⟩
  obtain ⟨deadline, hpc⟩ := hasleep.wait
  cases hpc

theorem alert_step {w v : IdleLoop × Meanwhile} (hw : Alert w) (hcareful : w.1.Careful w.2 a)
    (h : recorded step (fun s w => w.next s) w a = some v) : Alert v := by
  obtain ⟨hstep, hnext⟩ := recorded_eq_some.mp h
  refine ⟨heard_step hw.heard hstep, clear_step hw.clear hw.noted hcareful hstep, ?_⟩
  rw [hnext]
  exact noted_step hw.noted hstep

/-- Along a run of careful steps the Processer never sleeps on work. -/
theorem never_oversleeps {w : Meanwhile}
    (h : Reach (recorded step fun s w => w.next s) (fun w a => w.1.Careful w.2 a)
      (make now, .start) (s, w)) : ¬s.Oversleeps := by
  have halert : Alert (s, w) :=
    h.invariant (I := Alert) alert_make fun _ _ _ hw hcareful hs => alert_step hw hcareful hs
  exact halert.heard.not_oversleeps halert.clear

/-- A timer a second and half a millisecond away: the clock goes on by less than what
`GetLastDuration` cuts off, a task is woken in the wait and its interrupt ends it. -/
theorem never_oversleeps_notified : ∃ v,
    run (recorded step fun s w => w.next s) (fun w a => w.1.Careful w.2 a) (make 0, .start)
      [.addTimer 1000500000 (.timerTimeout 0), .process, .process, .process, .tick 300000,
        .process, .tick 5, .notify 7, .interrupteWaitLoop] = some v ∧
    v.1.pc = .wait 1000300000 ∧ ¬v.1.Oversleeps := by
  have hexists : ∃ v,
      run (recorded step fun s w => w.next s) (fun w a => w.1.Careful w.2 a) (make 0, .start)
        [.addTimer 1000500000 (.timerTimeout 0), .process, .process, .process, .tick 300000,
          .process, .tick 5, .notify 7, .interrupteWaitLoop] = some v ∧
      v.1.pc = .wait 1000300000 := exists_of_run (by decide)
  obtain ⟨v, hrun, hpc⟩ := hexists
  exact ⟨v, hrun, hpc, never_oversleeps (reach_of_run _ hrun)⟩

/-- A task is added when the Processer waits for a timer a second away. -/
theorem oversleeps_after_addTask :
    ¬∀ as s, run step Free (make 0) as = some s → ¬s.Oversleeps := by
  intro h
  apply h [.addTimer 1000000000 (.timerTimeout 0), .process, .process, .process, .process,
    .addTask [7]] _ rfl
  exact ⟨by decide, .inr (.inl (by decide))⟩

end IdleLoop

end CppGo.Scheduling
