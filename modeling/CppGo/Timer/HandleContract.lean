import CppGo.Lib.Observer
import CppGo.Timer.TrackedTimers

/-!
# The contract of a timer handle

`processer_` of a handle says that its element is in the map, as long as nobody stops a
timer whose callback has started, or one that a pass has skipped and dropped at its end.
Then a callback runs at most once and never after a stop, and the results of `StopTimer` are
right.
-/

namespace CppGo.Timers

open CppGo.Lib CppGo.Lib.Machine

/-- The timers that were created in a pass before the element whose callback ran: in the last
pass of each Processer, and in the earlier ones. -/
structure Skipped where
  last : Nat → List Nat
  earlier : List Nat

namespace Skipped

def make : Skipped := { last := fun _ => [], earlier := [] }

def next (s : TimerSystem) (w : Skipped) : TimerEvent → Skipped
  | .create p timepoint =>
      if (s.manager p).skips timepoint then
        { w with last := Function.update w.last p (s.timers.length :: w.last p) }
      else w
  | .wakeup p _ => { last := Function.update w.last p [], earlier := w.last p ++ w.earlier }
  | _ => w

variable {s : TimerSystem} {w : Skipped} {a : TimerEvent} {p q i : Nat} {timepoint : Int}

theorem mem_last_next (h : i ∈ w.last q) (ha : ∀ now, a ≠ .wakeup q now) :
    i ∈ (w.next s a).last q := by
  cases a with
  | create p timepoint =>
      simp only [next]
      split
      · show i ∈ Function.update w.last p _ q
        by_cases hq : q = p
        · subst hq
          rw [Function.update_self]
          exact List.mem_cons_of_mem _ h
        · rwa [Function.update_of_ne hq]
      · exact h
  | wakeup p now =>
      show i ∈ Function.update w.last p _ q
      have hq : q ≠ p := by
        rintro rfl
        exact ha now rfl
      rwa [Function.update_of_ne hq]
  | sleep p timepoint task => exact h
  | callbackReturn p => exact h
  | stop id => exact h

theorem mem_earlier_next (h : i ∈ w.earlier) : i ∈ (w.next s a).earlier := by
  cases a with
  | create p timepoint =>
      simp only [next]
      split
      · exact h
      · exact h
  | wakeup p now => exact List.mem_append_right _ h
  | sleep p timepoint task => exact h
  | callbackReturn p => exact h
  | stop id => exact h

theorem new_mem_next (h : (s.manager p).skips timepoint = true) :
    s.timers.length ∈ (w.next s (.create p timepoint)).last p := by
  simp only [next, h, if_true, Function.update_self]
  exact List.mem_cons_self

end Skipped

namespace TimerSystem

variable {s t : TimerSystem} {w w' : Skipped} {a : TimerEvent} {i id p q : Nat} {now : Int}

/-- A timer that has not been stopped is stopped only before its callback starts, and, if it
has been skipped by a pass, only during this pass. -/
def Timely (s : TimerSystem) (w : Skipped) : TimerEvent → Prop
  | .stop (some i) => ∀ timer ∈ s.timers[i]?, ∀ p ∈ timer.processer_,
      .fired i ∉ s.history ∧ i ∉ w.earlier ∧ (i ∈ w.last p → (s.manager p).pass ≠ none)
  | _ => True

instance (s : TimerSystem) (w : Skipped) : ∀ a, Decidable (s.Timely w a)
  | .stop (some i) => inferInstanceAs (Decidable (∀ timer ∈ s.timers[i]?, ∀ p ∈ timer.processer_,
      .fired i ∉ s.history ∧ i ∉ w.earlier ∧ (i ∈ w.last p → (s.manager p).pass ≠ none)))
  | .create _ _ | .sleep _ _ _ | .wakeup _ _ | .callbackReturn _ | .stop none => .isTrue trivial

/-- The element of a timer that has not fired is ahead of every pass, or a pass has skipped
it, and it is in the map while this pass runs. -/
inductive Placed (s : TimerSystem) (w : Skipped) (i id p : Nat) : Prop
  | ahead {n : Node Int TimerElement} (hn : n ∈ (s.manager p).ahead) (hid : n.id = id)
      (hvalue : n.value = .timerTimeout i)
  | behind (hi : i ∈ w.last p)
      (hid : (s.manager p).pass ≠ none → (s.manager p).timer_map_.contains id = true)
  | dropped (hi : i ∈ w.earlier)

namespace Placed

theorem mono (h : s.Placed w i id p) (ha : ∀ now, a ≠ .wakeup p now)
    (hpass : (t.manager p).pass = (s.manager p).pass)
    (hahead : ∀ n ∈ (s.manager p).ahead, n.id = id → n ∈ (t.manager p).ahead)
    (hmap : (s.manager p).timer_map_.contains id = true →
      (t.manager p).timer_map_.contains id = true) : t.Placed (w.next s a) i id p := by
  cases h with
  | ahead hn hid hvalue => exact .ahead (hahead _ hn hid) hid hvalue
  | behind hi hid =>
      apply Placed.behind (Skipped.mem_last_next hi ha)
      rw [hpass]
      exact fun hrunning => hmap (hid hrunning)
  | dropped hi => exact .dropped (Skipped.mem_earlier_next hi)

theorem frame (h : s.Placed w i id p) (ha : ∀ now, a ≠ .wakeup p now)
    (hm : t.manager p = s.manager p) : t.Placed (w.next s a) i id p := by
  refine h.mono ha (by rw [hm]) ?_ ?_
  · rw [hm]
    exact fun n hn _ => hn
  · rw [hm]
    exact fun hid => hid

theorem insert {timepoint : Int} {element : TimerElement} (h : s.Placed w i id p)
    (htracked : s.Tracked) (ha : ∀ now, a ≠ .wakeup p now)
    (hm : t.manager = Function.update s.manager q ((s.manager q).insert timepoint element)) :
    t.Placed (w.next s a) i id p := by
  by_cases hp : p = q
  · subst hp
    have hself : t.manager p = (s.manager p).insert timepoint element := by
      rw [hm, Function.update_self]
    refine h.mono ha (by rw [hself]; rfl) ?_ ?_
    · rw [hself]
      exact fun n hn _ => TimerManager.mem_ahead_insert (htracked.valid p) hn
    · rw [hself, Multimap.contains_iff, Multimap.contains_iff]
      rintro ⟨n, hn, hid⟩
      exact ⟨n, Multimap.mem_insert.mpr (.inr hn), hid⟩
  · exact h.frame ha (by rw [hm, Function.update_of_ne hp])

theorem erase {x : Nat} (h : s.Placed w i id p) (ha : ∀ now, a ≠ .wakeup p now)
    (hm : t.manager = Function.update s.manager q ((s.manager q).erase x))
    (hcursor : ∀ pass, (s.manager q).pass = some pass → pass.it ≠ x) (hne : p = q → id ≠ x) :
    t.Placed (w.next s a) i id p := by
  by_cases hp : p = q
  · subst hp
    have hself : t.manager p = (s.manager p).erase x := by rw [hm, Function.update_self]
    refine h.mono ha (by rw [hself]; rfl) ?_ ?_
    · rw [hself]
      rintro n hn rfl
      exact (TimerManager.mem_ahead_erase hcursor).mpr ⟨hn, hne rfl⟩
    · rw [hself, Multimap.contains_iff, Multimap.contains_iff]
      rintro ⟨n, hn, rfl⟩
      exact ⟨n, Multimap.mem_erase.mpr ⟨hn, hne rfl⟩, rfl⟩
  · exact h.frame ha (by rw [hm, Function.update_of_ne hp])

/-- A section of a pass fires the timer, or leaves its element ahead, or drops those that the
pass has skipped. -/
theorem pass (h : s.Placed w i id p) (htracked : s.Tracked)
    (hpass : s.passOf a = some (q, now))
    (hunfired : .fired i ∉ (s.ran q ((s.manager q).loop now (s.manager q).ahead)).history) :
    (s.ran q ((s.manager q).loop now (s.manager q).ahead)).Placed (w.next s a) i id p := by
  by_cases hp : p = q
  · subst hp
    have hself : (s.ran p ((s.manager p).loop now (s.manager p).ahead)).manager p =
        ((s.manager p).loop now (s.manager p).ahead).1 := Function.update_self ..
    obtain ⟨front, hnodes⟩ := TimerManager.ahead_suffix (htracked.valid p)
    have hserved : (s.manager p).Served now front ((s.manager p).loop now (s.manager p).ahead) :=
      TimerManager.served_loop hnodes.symm
    cases h with
    | @ahead n hn hid hvalue =>
        rw [hserved.split, List.mem_append] at hn
        rcases hn with hn | hn
        · refine absurd (List.mem_append_right _ ?_) hunfired
          rw [hserved.shown]
          exact List.mem_map.mpr ⟨n, hn, by rw [shownBy, hvalue]⟩
        · refine .ahead ?_ hid hvalue
          rwa [hself]
    | behind hi hid =>
        cases a with
        | wakeup q' now' =>
            cases hpass
            exact .dropped (List.mem_append_left _ hi)
        | callbackReturn q' =>
            obtain ⟨pass, hsome, heq⟩ := Option.map_eq_some_iff.mp hpass
            cases heq
            refine .behind hi ?_
            rw [hself]
            intro hrunning
            rw [TimerManager.map_loop hrunning]
            exact hid (by simp [hsome])
        | create q' timepoint => cases hpass
        | sleep q' timepoint task => cases hpass
        | stop j => cases hpass
    | dropped hi => exact .dropped (Skipped.mem_earlier_next hi)
  · refine h.frame ?_ (Function.update_of_ne hp ..)
    rintro now' rfl
    cases hpass
    exact hp rfl

end Placed

structure Kept (s : TimerSystem) (w : Skipped) : Prop where
  tracked : s.Tracked
  placed : ∀ i id p, s.timers[i]? = some ⟨id, some p⟩ → .fired i ∉ s.history →
    s.Placed w i id p

namespace Kept

theorem pending (h : s.Kept w) (hc : s.Timely w a) : s.Pending a := by
  rintro i id p rfl htimer
  obtain ⟨hunfired, hearlier, hlast⟩ := hc _ htimer p rfl
  refine ⟨?_, hunfired⟩
  cases h.placed i id p htimer hunfired with
  | ahead hn hid _ => exact Multimap.contains_iff.mpr ⟨_, TimerManager.ahead_subset hn, hid⟩
  | behind hi hid => exact hid (hlast hi)
  | dropped hi => exact absurd hi hearlier

theorem create {timepoint : Int} (h : s.Kept w)
    (htracked : (s.createMilliTimer p timepoint).Tracked) :
    (s.createMilliTimer p timepoint).Kept (w.next s (.create p timepoint)) := by
  refine ⟨htracked, fun i id q htimer hunfired => ?_⟩
  have hconcat : (s.timers ++ [⟨(s.manager p).timer_map_.nextId, some p⟩])[i]? =
      some ⟨id, some q⟩ := htimer
  rcases Arrivals.getElem?_concat_iff.mp hconcat with hold | ⟨rfl, heq⟩
  · exact (h.placed i id q hold hunfired).insert h.tracked (by simp) rfl
  · cases heq
    have hself : (s.createMilliTimer p timepoint).manager p =
        (s.manager p).insert timepoint (.timerTimeout s.timers.length) :=
      Function.update_self ..
    cases hskips : (s.manager p).skips timepoint with
    | false =>
        refine .ahead (n := ⟨_, timepoint, .timerTimeout s.timers.length⟩) ?_ rfl rfl
        rw [hself]
        exact TimerManager.new_mem_ahead (h.tracked.valid p) hskips
    | true =>
        refine .behind (Skipped.new_mem_next hskips) fun _ => ?_
        rw [hself]
        exact Multimap.contains_iff.mpr ⟨_, Multimap.mem_insert.mpr (.inl rfl), rfl⟩

theorem pass (h : s.Kept w) (htracked : t.Tracked) (hpass : s.passOf a = some (p, now))
    (hs : s.step a = some t) : t.Kept (w.next s a) := by
  obtain rfl := step_pass h.tracked hpass hs
  refine ⟨htracked, fun i id q htimer hunfired => ?_⟩
  refine (h.placed i id q htimer fun hfired => hunfired ?_).pass h.tracked hpass hunfired
  exact List.mem_append_left _ hfired

theorem stop {timer : Timer} (h : s.Kept w) (htracked : t.Tracked)
    (htimer : s.timers[i]? = some timer) (hproc : timer.processer_ = some p)
    (hunfired : .fired i ∉ s.history)
    (hm : t.manager = Function.update s.manager p ((s.manager p).erase timer.id_))
    (htimers : t.timers = s.timers.set i { timer with processer_ := none })
    (hhistory : t.history = s.history ++ [.stopped i true]) :
    t.Kept (w.next s (.stop (some i))) := by
  have htimer' : s.timers[i]? = some ⟨timer.id_, some p⟩ := by rw [htimer, ← hproc]
  refine ⟨htracked, fun j id q hj hj' => ?_⟩
  rw [htimers] at hj
  rw [hhistory] at hj'
  obtain ⟨-, hnone⟩ | ⟨hne, hold⟩ := (Arrivals.getElem?_set_iff htimer).mp hj
  · cases hnone
  · have hplaced := h.placed j id q hold fun hfired => hj' (List.mem_append_left _ hfired)
    refine hplaced.erase (by simp) hm
      (fun pass hpass => h.tracked.cursor_ne htimer' hunfired hpass) ?_
    rintro rfl rfl
    exact hne (h.tracked.inj j i q _ hold htimer')

theorem step (h : s.Kept w) (hc : s.Timely w a) (hs : s.step a = some t) :
    t.Kept (w.next s a) := by
  obtain ⟨hlive, houtcome⟩ := step_outcome hs
  have htracked := h.tracked.outcome (h.pending hc) houtcome
  cases a with
  | create p timepoint =>
      cases houtcome
      exact h.create htracked
  | sleep p timepoint task =>
      cases houtcome
      refine ⟨htracked, fun i id q htimer hunfired => ?_⟩
      exact (h.placed i id q htimer hunfired).insert h.tracked (by simp) rfl
  | wakeup p now => exact h.pass htracked rfl hs
  | callbackReturn p =>
      cases hpass : (s.manager p).pass with
      | none =>
          rw [TimerSystem.step, hlive] at hs
          simp [stepLive, hpass] at hs
      | some pass =>
          have hpassOf : s.passOf (.callbackReturn p) = some (p, pass.now) := by
            rw [passOf, hpass, Option.map_some]
          exact h.pass htracked hpassOf hs
  | stop id =>
      cases houtcome with
      | noHandle => exact h
      | @stopLate i timer htimer hproc =>
          refine ⟨htracked, fun j id q hj hunfired => ?_⟩
          refine (h.placed j id q hj fun hfired => hunfired ?_).frame (by simp) rfl
          exact List.mem_append_left _ hfired
      | @stop i p timer htimer hproc hid =>
          exact h.stop htracked htimer hproc (hc timer htimer p hproc).1 rfl rfl rfl
      | dangling htimer hproc hid => cases htracked.live

end Kept

theorem kept_of_reach
    (h : Reach (recorded step Skipped.next) (fun v a => v.1.Timely v.2 a) (make, .make) (s, w)) :
    s.Kept w := by
  refine h.invariant (I := fun v => v.1.Kept v.2) ⟨tracked_make, by simp [make]⟩ ?_
  rintro ⟨u, w⟩ a ⟨u', w'⟩ hu hc hs
  obtain ⟨hstep, rfl⟩ := recorded_eq_some.mp hs
  exact hu.step hc hstep

/-- A callback runs at most once and not after a stop; `StopTimer` returns whether the
timer had neither fired nor been stopped; and no invalid iterator is used. -/
structure HandleContract (s : TimerSystem) : Prop where
  once : ∀ i, s.history.count (.fired i) ≤ 1
  stopped : ∀ i pre post, s.history = pre ++ .stopped i true :: post → .fired i ∉ post
  returns : ∀ i ret pre post, s.history = pre ++ .stopped i ret :: post →
    (ret = true ↔ .fired i ∉ pre ∧ .stopped i true ∉ pre)
  iterators : s.fault = false

theorem handleContract_of_timely
    (h : Reach (recorded step Skipped.next) (fun v a => v.1.Timely v.2 a) (make, .make) (s, w)) :
    s.HandleContract := by
  have htracked := (kept_of_reach h).tracked
  refine ⟨fun i => ?_, fun i pre post hsplit hmem => ?_, fun i ret pre post hsplit => ?_,
    htracked.live⟩
  · exact htracked.lawful.count_le_one fun pre hpre => hpre.1
  · obtain ⟨mid, rest, rfl⟩ := List.append_of_mem hmem
    have hfired := htracked.lawful (pre ++ .stopped i true :: mid) (.fired i) rest (by
      rw [hsplit]
      simp)
    exact hfired.2 (by simp)
  · exact htracked.lawful pre (.stopped i ret) post hsplit

/-- In the callback of timer 0, timer 1 is stopped twice, and timer 2 is created before the
element of timer 0 and stopped. -/
def stopPending : List TimerEvent :=
  [.create 0 5, .create 0 7, .sleep 0 6 1, .wakeup 0 6, .stop (some 1), .stop (some 1),
    .create 0 3, .stop (some 2), .callbackReturn 0]

theorem handleContract_stop_pending :
    ∃ s w, run (recorded step Skipped.next) (fun v a => v.1.Timely v.2 a) (make, .make)
      stopPending = some (s, w) ∧ s.HandleContract :=
  ⟨_, _, rfl, handleContract_of_timely (reach_of_run stopPending rfl)⟩

/-- A timer is stopped after it has fired: `processer_` is still set, and its iterator is
not valid any more. -/
theorem not_handleContract_after_fired :
    ¬ ∀ s : TimerSystem, Reach step Free make s → s.HandleContract := by
  intro hall
  obtain ⟨s, hrun, hfault⟩ : ∃ s, run step Free make
      [.create 0 5, .wakeup 0 10, .callbackReturn 0, .stop (some 0)] = some s ∧
        s.fault = true :=
    ⟨_, rfl, rfl⟩
  have := (hall s (reach_of_run _ hrun)).iterators
  rw [hfault] at this
  cases this

end TimerSystem

end CppGo.Timers
