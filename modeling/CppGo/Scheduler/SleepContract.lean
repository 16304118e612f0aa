import CppGo.Scheduler.SleepCalls
import CppGo.Timer.PassSections

/-!
# A sleeping task is woken once and not early

The passes of `WakeupTimers` over the map that timers and sleepers share.
-/

namespace CppGo.Scheduling

open CppGo.Lib CppGo.Lib.Machine CppGo.Timers

namespace SleepSystem

variable {s u : SleepSystem} {ahead : Nat → Elements} {p : Nat} {t : TaskPtr}

/-- Where `WakeupTimers` of `p` is, and which elements it still has to serve. -/
structure Passing (s : SleepSystem) (p : Nat) : Prop where
  due : ∀ i ∈ s.due p, i < (s.timer_manager_ p).timer_map_.nextId
  idle : (s.timer_manager_ p).pass = none →
    ∀ n ∈ (s.timer_manager_ p).timer_map_.nodes, n.id ∉ s.due p
  busy : ∀ pass, (s.timer_manager_ p).pass = some pass →
    (s.scheduler.processers_ p).pc = .waitLoop ∧
      (s.timer_manager_ p).timer_map_.contains pass.it = true ∧
      ∀ n ∈ (s.timer_manager_ p).timer_map_.nodes, n.id ∈ s.due p → n.key ≤ pass.now

section Sections

variable {now : Int} {front l : Elements} {m : TimerManager}

theorem foldl_wakeup_frame (tasks : List TaskPtr) :
    (tasks.foldl (wakeup now) s).timer_manager_ = s.timer_manager_ ∧
      (tasks.foldl (wakeup now) s).due = s.due ∧
      (tasks.foldl (wakeup now) s).scheduler.processers_ = s.scheduler.processers_ ∧
      (tasks.foldl (wakeup now) s).scheduler.size = s.scheduler.size := by
  induction tasks generalizing s with
  | nil => exact ⟨rfl, rfl, rfl, rfl⟩
  | cons t tasks ih =>
      obtain ⟨hmanager, hdue, hproc, hsize⟩ := @ih (s.wakeup now t)
      refine ⟨hmanager, hdue, hproc.trans Scheduler.processers_wakeupBySelfIo, hsize.trans ?_⟩
      show (s.scheduler.wakeupBySelfIo t).size = _
      unfold Scheduler.wakeupBySelfIo
      split <;> rfl

theorem Consistent.foldl_wakeup {pre rest : Elements} (h : s.Consistent ahead)
    (hahead : ahead p = pre ++ rest) (hdue : ∀ n ∈ pre, n.key ≤ now) :
    (((pre.map shownBy).filterMap wokenTask).foldl (SleepSystem.wakeup now) s).Consistent
      (Function.update ahead p rest) := by
  induction pre generalizing s ahead with
  | nil =>
      obtain rfl : ahead p = rest := hahead
      rw [Function.update_eq_self]
      exact h
  | cons n pre ih =>
      have hn := hdue n List.mem_cons_self
      have hpre := fun k hk => hdue k (List.mem_cons_of_mem n hk)
      have hnext : Function.update ahead p (pre ++ rest) p = pre ++ rest :=
        Function.update_self ..
      cases hvalue : n.value with
      | timerTimeout timer =>
          have hskip : s.Consistent (Function.update ahead p (pre ++ rest)) := by
            apply h.of_ahead
            · intro p' k t hk
              by_cases hp : p' = p
              · subst hp
                rw [hnext, hahead, List.cons_append, List.mem_cons]
                refine ⟨.inr, fun hmem => hmem.resolve_left ?_⟩
                rintro rfl
                cases hvalue.symm.trans hk
              · rw [Function.update_of_ne hp]
            · intro p'
              by_cases hp : p' = p
              · subst hp
                have hnodup := h.nodup p'
                rw [hahead, List.cons_append, List.map_cons, List.nodup_cons] at hnodup
                rw [hnext]
                exact hnodup.2
              · rw [Function.update_of_ne hp]
                exact h.nodup p'
          have hrest := ih hskip hnext hpre
          have hshown : shownBy n = .fired timer := by rw [shownBy, hvalue]
          rw [Function.update_idem] at hrest
          rw [List.map_cons, hshown]
          exact hrest
      | taskTimeout t =>
          have hrest := ih (h.wakeup hahead hvalue hn) hnext hpre
          have hshown : shownBy n = .woke t := by rw [shownBy, hvalue]
          rw [Function.update_idem] at hrest
          rw [List.map_cons, hshown]
          exact hrest

theorem Consistent.congr (h : s.Consistent ahead) (hscheduler : u.scheduler = s.scheduler)
    (hms : u.milliseconds = s.milliseconds) (hcalls : u.calls = s.calls) : u.Consistent ahead := by
  have hstarting : ∀ p t, s.Starting p t → u.Starting p t := by
    intro p t hp
    constructor
    · rw [hms]
      exact hp.milliseconds
    · rw [hscheduler]
      exact hp.pc
  constructor
  case coherent => exact hscheduler ▸ h.coherent
  case bounded => exact hscheduler ▸ h.bounded
  case calls =>
    intro t
    rw [hcalls]
    apply (h.calls t).transfer (fun p => hstarting p t)
    · rw [hscheduler]
      exact id
    · exact fun _ _ hn _ => hn
  case sleepers =>
    rw [hcalls]
    exact h.sleepers
  case milliseconds =>
    intro p hp
    rw [hms] at hp
    obtain ⟨t, l, hl, hstart⟩ := h.milliseconds p hp
    exact ⟨t, l, hcalls ▸ hl, hstarting p t hstart⟩
  case nodup => exact h.nodup

structure Inv (s : SleepSystem) : Prop where
  consistent : s.Consistent fun p => (s.timer_manager_ p).ahead
  passing : ∀ p, s.Passing p

structure AtSection (s : SleepSystem) (p : Nat) (now : Int) (front l : Elements) : Prop where
  consistent : ∃ ahead, s.Consistent ahead ∧ ahead p = l ∧
    ∀ p' ≠ p, ahead p' = (s.timer_manager_ p').ahead
  nodes : (s.timer_manager_ p).timer_map_.nodes = front ++ l
  lt_size : p < s.scheduler.size
  pc : (s.scheduler.processers_ p).pc = .waitLoop
  fresh : ∀ i ∈ s.due p, i < (s.timer_manager_ p).timer_map_.nextId
  due : ∀ n ∈ (s.timer_manager_ p).timer_map_.nodes, n.id ∈ s.due p → n.key ≤ now
  others : ∀ p' ≠ p, s.Passing p'

theorem Passing.congr (h : s.Passing p) (hmanager : u.timer_manager_ p = s.timer_manager_ p)
    (hdue : u.due p = s.due p)
    (hpc : (s.scheduler.processers_ p).pc = .waitLoop → (u.scheduler.processers_ p).pc = .waitLoop) :
    u.Passing p := by
  constructor
  · rw [hmanager, hdue]
    exact h.due
  · rw [hmanager, hdue]
    exact h.idle
  · rw [hmanager, hdue]
    intro pass hpass
    obtain ⟨hwait, hrest⟩ := h.busy pass hpass
    exact ⟨hpc hwait, hrest⟩

structure Served (s : SleepSystem) (p : Nat) (m : TimerManager) (v : SleepSystem) : Prop where
  consistent : v.Consistent fun p => (v.timer_manager_ p).ahead
  manager : v.timer_manager_ p = m
  due : v.due = s.due
  processers : v.scheduler.processers_ = s.scheduler.processers_
  size : v.scheduler.size = s.scheduler.size
  others : ∀ p' ≠ p, v.Passing p'

theorem AtSection.served {pre rest : Elements} (h : s.AtSection p now front (pre ++ rest))
    (hdue : ∀ n ∈ pre, n.key ≤ now) (hm : m.ahead = rest) :
    s.Served p m (((pre.map shownBy).filterMap wokenTask).foldl (wakeup now) (s.setManager p m)) := by
  obtain ⟨ahead, hconsistent, hahead, hothers⟩ := h.consistent
  have hset : (s.setManager p m).Consistent ahead := hconsistent.congr rfl rfl rfl
  have hserved := hset.foldl_wakeup hahead hdue
  obtain ⟨hmanager, hsame, hproc, hsize⟩ := @foldl_wakeup_frame (s.setManager p m) now
    ((pre.map shownBy).filterMap wokenTask)
  generalize ((pre.map shownBy).filterMap wokenTask).foldl (wakeup now) (s.setManager p m) = v
    at hserved hmanager hsame hproc hsize
  have hself : v.timer_manager_ p = m := by
    rw [hmanager]
    exact Function.update_self ..
  have hother : ∀ p' ≠ p, v.timer_manager_ p' = s.timer_manager_ p' := by
    intro p' hp
    rw [hmanager]
    exact Function.update_of_ne hp _ _
  constructor
  case consistent =>
    have hall : (fun p => (v.timer_manager_ p).ahead) = Function.update ahead p rest := by
      ext1 p'
      by_cases hp : p' = p
      · rw [hp, hself, Function.update_self, hm]
      · rw [hother p' hp, Function.update_of_ne hp, hothers p' hp]
    rw [hall]
    exact hserved
  case manager => exact hself
  case due => exact hsame
  case processers => exact hproc
  case size => exact hsize
  case others =>
    intro p' hp
    exact (h.others p' hp).congr (hother p' hp) (congrFun hsame p') (by rw [hproc]; exact id)

theorem AtSection.ran {r : TimerManager × List Observation} (h : s.AtSection p now front l)
    (hr : TimerManager.Serves (s.timer_manager_ p) now front l r) : (s.ran p now r).Inv := by
  have hnodes := h.nodes
  cases hr with
  | callback hl hdue hserved hvalue =>
      rename_i pre post n timer
      have hl : l = (pre ++ [n]) ++ post := by rw [hl]; simp
      rw [hl] at h
      generalize hm : ({ s.timer_manager_ p with pass := some { now := now, it := n.id } } :
        TimerManager) = m
      have hsplit : m.timer_map_.nodes = (front ++ pre) ++ n :: post := by
        rw [← hm]
        show (s.timer_manager_ p).timer_map_.nodes = _
        rw [h.nodes]
        simp
      have hahead : m.ahead = post := by
        rw [← hm]
        show Multimap.after (s.timer_manager_ p).timer_map_ n.id = post
        rw [← hm] at hsplit
        rw [Multimap.after, Multimap.starting_of_split hsplit]
        rfl
      have hv := h.served hdue hahead
      have hran : s.ran p now (m, (pre ++ [n]).map shownBy) =
          (((pre ++ [n]).map shownBy).filterMap wokenTask).foldl (wakeup now)
            (s.setManager p m) := by
        unfold SleepSystem.ran
        rw [← hm]
        rfl
      rw [hran]
      generalize (((pre ++ [n]).map shownBy).filterMap wokenTask).foldl (wakeup now)
        (s.setManager p m) = v at hv
      refine ⟨hv.consistent, fun p' => ?_⟩
      by_cases hp : p' = p
      · subst hp
        constructor
        · rw [hv.manager, hv.due, ← hm]
          exact h.fresh
        · rw [hv.manager, ← hm]
          intro hpass
          cases hpass
        · rw [hv.manager, hv.due, hv.processers, ← hm]
          intro pass hpass
          obtain rfl : _ = pass := Option.some.inj hpass
          refine ⟨h.pc, ?_, h.due⟩
          rw [Multimap.contains_iff]
          refine ⟨n, ?_, rfl⟩
          rw [h.nodes]
          simp
      · exact hv.others p' hp
  | finished hl hpre hpost hserved hnodes' hnext =>
      rename_i pre post timer_map_
      rw [hl] at h
      have hv := h.served (m := { timer_map_ := timer_map_, pass := none }) hpre hnodes'
      have hran : s.ran p now ({ timer_map_ := timer_map_, pass := none }, pre.map shownBy) =
          (((pre.map shownBy).filterMap wokenTask).foldl (wakeup now)
            (s.setManager p { timer_map_ := timer_map_, pass := none })).toFront p := rfl
      rw [hran]
      generalize ((pre.map shownBy).filterMap wokenTask).foldl (wakeup now)
        (s.setManager p { timer_map_ := timer_map_, pass := none }) = v at hv
      have hwait : (v.scheduler.processers_ p).pc = .waitLoop := by
        rw [hv.processers]
        exact h.pc
      refine ⟨hv.consistent.toFront (hv.size ▸ h.lt_size) hwait, fun p' => ?_⟩
      by_cases hp : p' = p
      · subst hp
        have hmanager : (v.toFront p').timer_manager_ p' =
            { timer_map_ := timer_map_, pass := none } := hv.manager
        have hdue : (v.toFront p').due = s.due := hv.due
        constructor
        · rw [hmanager, hdue, hnext]
          exact h.fresh
        · rw [hmanager, hdue]
          intro _ n hn hmem
          have hn : n ∈ post := hnodes' ▸ hn
          have hkey := h.due n (h.nodes ▸ by simp [hn]) hmem
          exact absurd hkey (not_le.mpr (hpost n hn))
        · rw [hmanager]
          intro pass hpass
          cases hpass
      · refine (hv.others p' hp).congr (u := v.toFront p) rfl rfl ?_
        intro hpc
        rw [← hpc]
        exact Scheduler.pc_update fun heq => absurd heq hp

end Sections

section Inserts

variable {timepoint : Int} {element : TimerElement} {m : TimerManager} {n : Node Int TimerElement}

theorem nodup_ahead (m : TimerManager) : (m.ahead.map Node.id).Nodup := by
  unfold TimerManager.ahead
  split
  · exact m.timer_map_.nodup
  · rename_i pass _
    have hsublist := m.timer_map_.starting_sublist (some pass.it)
    exact m.timer_map_.nodup.sublist (((List.tail_sublist _).trans hsublist).map _)

theorem Passing.valid (h : s.Passing p) : (s.timer_manager_ p).Valid := fun pass hpass =>
  (h.busy pass hpass).2.1

theorem Passing.insert (h : s.Passing p)
    (hmanager : u.timer_manager_ p = (s.timer_manager_ p).insert timepoint element)
    (hdue : u.due p = s.due p) (hscheduler : u.scheduler = s.scheduler) : u.Passing p := by
  have hnodes : ∀ n ∈ (u.timer_manager_ p).timer_map_.nodes, n.id ∈ s.due p →
      n ∈ (s.timer_manager_ p).timer_map_.nodes := by
    intro n hn hmem
    rw [hmanager] at hn
    rcases Multimap.mem_insert.mp hn with rfl | hn
    · exact absurd (h.due _ hmem) (lt_irrefl _)
    · exact hn
  have hpass : (u.timer_manager_ p).pass = (s.timer_manager_ p).pass := by
    rw [hmanager]
    rfl
  constructor
  · rw [hmanager, hdue]
    intro i hi
    exact Nat.lt_succ_of_lt (h.due i hi)
  · rw [hpass, hdue]
    intro hidle n hn hmem
    exact h.idle hidle n (hnodes n hn hmem) hmem
  · rw [hpass, hdue, hscheduler]
    intro pass hbusy
    obtain ⟨hpc, hit, hkeys⟩ := h.busy pass hbusy
    refine ⟨hpc, ?_, fun n hn hmem => hkeys n (hnodes n hn hmem) hmem⟩
    obtain ⟨n, hn, hid⟩ := Multimap.contains_iff.mp hit
    rw [hmanager]
    exact Multimap.contains_iff.mpr ⟨n, Multimap.mem_insert.mpr (.inr hn), hid⟩

theorem Inv.createMilliTimer (h : s.Inv) (p : Nat) (timepoint : Int) (timer : Nat) :
    (s.setManager p ((s.timer_manager_ p).insert timepoint (.timerTimeout timer))).Inv := by
  have hself : (s.setManager p ((s.timer_manager_ p).insert timepoint
      (.timerTimeout timer))).timer_manager_ p =
      (s.timer_manager_ p).insert timepoint (.timerTimeout timer) := Function.update_self ..
  have hother : ∀ p' ≠ p, (s.setManager p ((s.timer_manager_ p).insert timepoint
      (.timerTimeout timer))).timer_manager_ p' = s.timer_manager_ p' :=
    fun p' hp => Function.update_of_ne hp _ _
  constructor
  · have hset := h.consistent.congr (u := s.setManager p ((s.timer_manager_ p).insert timepoint
      (.timerTimeout timer))) rfl rfl rfl
    apply hset.of_ahead
    · intro p' n t hvalue
      by_cases hp : p' = p
      · subst hp
        have hvalid := (h.passing p').valid
        rw [hself]
        refine ⟨fun hn => (TimerManager.eq_or_mem_ahead hvalid hn).resolve_left ?_,
          TimerManager.mem_ahead_insert hvalid⟩
        rintro rfl
        cases hvalue
      · rw [hother p' hp]
    · exact fun p' => nodup_ahead _
  · intro p'
    by_cases hp : p' = p
    · subst hp
      exact (h.passing p').insert hself rfl rfl
    · exact (h.passing p').congr (hother p' hp) rfl id

theorem Inv.addSleeper {q : Nat} {now ms : Int} (h : s.Inv)
    (hpc : (s.scheduler.processers_ p).pc = .suspended t) (hms : s.milliseconds p = some ms)
    (hhome : (s.scheduler.task t).proc_ = some q) : (s.addSleeper p q t now ms).Inv := by
  have hp : s.Starting p t := h.consistent.starting_of_pc hpc (by rw [hms]; rfl)
  obtain rfl : p = q := by
    have hhome' := h.consistent.home_of_starting hp
    exact Option.some.inj (hhome'.symm.trans hhome)
  have hself : (s.addSleeper p p t now ms).timer_manager_ p =
      (s.timer_manager_ p).insert (now + ms * millisecond) (.taskTimeout t) :=
    Function.update_self ..
  have hother : ∀ p' ≠ p, (s.addSleeper p p t now ms).timer_manager_ p' = s.timer_manager_ p' :=
    fun p' hp => Function.update_of_ne hp _ _
  have hidle : (s.timer_manager_ p).pass = none := by
    cases hpass : (s.timer_manager_ p).pass with
    | none => rfl
    | some pass =>
        have hwait := ((h.passing p).busy pass hpass).1
        cases hpc.symm.trans hwait
  constructor
  · apply h.consistent.addSleeper hp hpc
    · intro p' n
      by_cases hpp : p' = p
      · subst hpp
        rw [hself]
        unfold TimerManager.ahead TimerManager.insert
        simp only [hidle, Multimap.mem_insert, true_and]
        exact or_comm
      · rw [hother p' hpp]
        simp [hpp]
    · exact fun p' => nodup_ahead _
  · intro p'
    by_cases hpp : p' = p
    · subst hpp
      exact (h.passing p').insert hself rfl rfl
    · exact (h.passing p').congr (hother p' hpp) rfl id

end Inserts

section Runs

theorem pc_of_apart {v : Scheduler} {e : SchedulerStep} (hapart : s.apart e = true)
    (hs : s.scheduler.step e = some v) (hpc : (s.scheduler.processers_ p).pc = .waitLoop) :
    (v.processers_ p).pc = .waitLoop := by
  rw [← hpc]
  apply Scheduler.pc_step hs
  · rintro rfl
    simp [apart, hpc] at hapart
  · simp [hpc]
  · simp [hpc]

theorem Inv.scheduler {v : Scheduler} {e : SchedulerStep} (h : s.Inv) (hapart : s.apart e = true)
    (hs : s.scheduler.step e = some v) : ({ s with scheduler := v } : SleepSystem).Inv where
  consistent := h.consistent.scheduler hapart hs
  passing p := (h.passing p).congr rfl rfl (pc_of_apart hapart hs)

theorem Inv.sleep (h : s.Inv) (hpc : (s.scheduler.processers_ p).pc = .exec t) (ms : Int) :
    (s.sleep p t ms).Inv := by
  refine ⟨h.consistent.sleep hpc ms, fun p' => ?_⟩
  refine (h.passing p').congr (u := s.sleep p t ms) rfl rfl fun hwait => ?_
  rw [← hwait]
  refine Scheduler.pc_update fun hp => ?_
  rw [hp, hpc] at hwait
  cases hwait

theorem Inv.wakeupTimers (h : s.Inv) (hp : p < s.scheduler.size)
    (hpc : (s.scheduler.processers_ p).pc = .waitLoop) (hpass : (s.timer_manager_ p).pass = none)
    (now : Int) : (s.wakeupTimers p now).Inv := by
  generalize hdue : ((s.timer_manager_ p).timer_map_.nodes.filter fun n => n.key ≤ now).map
    Node.id = due
  have hmem : ∀ i ∈ due, ∃ n ∈ (s.timer_manager_ p).timer_map_.nodes, n.key ≤ now ∧ n.id = i := by
    intro i hi
    rw [← hdue, List.mem_map] at hi
    obtain ⟨n, hn, rfl⟩ := hi
    rw [List.mem_filter, decide_eq_true_eq] at hn
    exact ⟨n, hn.1, hn.2, rfl⟩
  have hat : ({ s with due := Function.update s.due p due } : SleepSystem).AtSection p now []
      (s.timer_manager_ p).timer_map_.nodes := by
    constructor
    case consistent =>
      refine ⟨_, h.consistent.congr rfl rfl rfl, ?_, fun _ _ => rfl⟩
      simp only [TimerManager.ahead, hpass]
    case nodes => rfl
    case lt_size => exact hp
    case pc => exact hpc
    case fresh =>
      intro i hi
      simp only [Function.update_self] at hi
      obtain ⟨n, hn, -, rfl⟩ := hmem i hi
      exact (s.timer_manager_ p).timer_map_.fresh n hn
    case due =>
      intro n hn hi
      simp only [Function.update_self] at hi
      obtain ⟨n', hn', hkey, hid⟩ := hmem n.id hi
      exact Multimap.eq_of_id hn' hn hid ▸ hkey
    case others =>
      intro p' hpp
      exact (h.passing p').congr rfl (Function.update_of_ne hpp _ _) id
  have hran : s.wakeupTimers p now =
      ({ s with due := Function.update s.due p due } : SleepSystem).ran p now
        ((s.timer_manager_ p).loop now (s.timer_manager_ p).timer_map_.nodes) := by
    unfold SleepSystem.wakeupTimers
    rw [← TimerManager.wakeupTimers_eq_loop hpass, ← hdue]
  rw [hran]
  exact hat.ran (TimerManager.serves_loop rfl)

theorem Inv.callbackReturn {pass : Pass} (h : s.Inv)
    (hpass : (s.timer_manager_ p).pass = some pass) :
    (s.ran p pass.now ((s.timer_manager_ p).loop pass.now
      ((s.timer_manager_ p).timer_map_.after pass.it))).Inv := by
  obtain ⟨hpc, hit, hkeys⟩ := (h.passing p).busy pass hpass
  obtain ⟨n, hn, hid⟩ := Multimap.contains_iff.mp hit
  obtain ⟨front, l, hsplit⟩ := List.append_of_mem hn
  have hafter : (s.timer_manager_ p).timer_map_.after pass.it = l := by
    rw [← hid, Multimap.after, Multimap.starting_of_split hsplit]
    rfl
  rw [hafter]
  have hnodes : (s.timer_manager_ p).timer_map_.nodes = (front ++ [n]) ++ l := by
    rw [hsplit]
    simp
  have hat : s.AtSection p pass.now (front ++ [n]) l := by
    constructor
    case consistent =>
      refine ⟨_, h.consistent, ?_, fun _ _ => rfl⟩
      simp only [TimerManager.ahead, hpass]
      exact hafter
    case nodes => exact hnodes
    case lt_size =>
      by_contra hp
      rw [h.consistent.bounded.processers p (by omega)] at hpc
      cases hpc
    case pc => exact hpc
    case fresh => exact (h.passing p).due
    case due => exact hkeys
    case others => exact fun p' _ => h.passing p'
  exact hat.ran (TimerManager.serves_loop hnodes)

theorem Inv.step {e : SleepEvent} (h : s.Inv) (hs : s.step e = some u) : u.Inv := by
  cases e with
  | scheduler e =>
      unfold SleepSystem.step at hs
      simp only at hs
      split at hs
      · rename_i hapart
        obtain ⟨v, hv, rfl⟩ := Option.map_eq_some_iff.mp hs
        exact h.scheduler hapart hv
      · cases hs
  | sleep p ms =>
      unfold SleepSystem.step at hs
      simp only at hs
      split at hs
      · rename_i t hpc
        split at hs
        · cases hs
          exact h.sleep hpc ms
        · obtain ⟨v, hv, rfl⟩ := Option.map_eq_some_iff.mp hs
          exact h.scheduler rfl hv
      · cases hs
  | addSleeper p now =>
      unfold SleepSystem.step at hs
      simp only at hs
      split at hs
      · rename_i t ms hpc hms
        split at hs
        · rename_i q hhome
          cases hs
          exact h.addSleeper hpc hms hhome
        · rename_i hnone
          have hp : s.Starting p t := h.consistent.starting_of_pc hpc (by rw [hms]; rfl)
          cases hnone.symm.trans (h.consistent.home_of_starting hp)
      · cases hs
  | createMilliTimer p now duration timer =>
      cases hs
      exact h.createMilliTimer p _ timer
  | wakeupTimers p now =>
      unfold SleepSystem.step at hs
      simp only at hs
      split at hs
      · rename_i hguard
        cases hs
        exact h.wakeupTimers hguard.1 hguard.2.1 hguard.2.2 now
      · cases hs
  | callbackReturn p =>
      unfold SleepSystem.step at hs
      simp only at hs
      split at hs
      · rename_i pass hpass
        split at hs
        · cases hs
          exact h.callbackReturn hpass
        · cases hs
      · cases hs

theorem inv_make : make.Inv where
  consistent :=
    { coherent := Scheduler.coherent_make
      bounded := Scheduler.bounded_make
      calls := fun _ => .awake (by simp [make])
      sleepers := fun _ _ => nofun
      milliseconds := fun _ => nofun
      nodup := fun _ => nodup_ahead _ }
  passing _ :=
    { due := nofun
      idle := fun _ _ => nofun
      busy := nofun }

end Runs

section Contract

/-- A call of `sleep` is ended by one `WakeupBySelfIO`, not before its deadline and of a task
that is in no queue; up to then its element stays in the map and its task in no queue.  A
pass that is over has left no call open whose element was due when it started. -/
structure SleepContract (s : SleepSystem) : Prop where
  once : ∀ t, ∀ c ∈ s.calls t, c.wakes.length ≤ 1
  ended : ∀ t, ∀ c ∈ (s.calls t).tail, c.wakes.length = 1
  running : ∀ p t, (s.scheduler.processers_ p).pc = .exec t →
    ∀ c ∈ s.calls t, c.wakes.length = 1
  wakes : ∀ t, ∀ c ∈ s.calls t, ∀ w ∈ c.wakes, w.queued = false ∧
    ∃ x, c.sleeper = some x ∧ x.deadline ≤ w.now
  pushes : ∀ w ∈ s.scheduler.waking, s.scheduler.queued w.1 = false
  asleep : ∀ t, ∀ c ∈ s.calls t, c.wakes = [] → ∀ x, c.sleeper = some x →
    s.scheduler.queued t = false ∧
      ⟨x.id, x.deadline, .taskTimeout t⟩ ∈ (s.timer_manager_ x.processer).timer_map_.nodes
  passes : ∀ p, (s.timer_manager_ p).pass = none → ∀ t, ∀ c ∈ s.calls t, ∀ x,
    c.sleeper = some x → x.processer = p → x.id ∈ s.due p → c.wakes ≠ []
  sound : s.scheduler.fault = false

theorem length_of_ended {c : SleepCall} (h : c.Ended) : c.wakes.length = 1 := by
  obtain ⟨w, x, hw, -⟩ := h
  rw [hw]
  rfl

theorem Consistent.of_open (h : s.Consistent ahead) {c : SleepCall} (hc : c ∈ s.calls t)
    (hwakes : c.wakes = []) {x : Sleeper} (hx : c.sleeper = some x) :
    t ∈ s.scheduler.suspended ∧ ⟨x.id, x.deadline, .taskTimeout t⟩ ∈ ahead x.processer := by
  have hcalls := h.calls t
  generalize s.calls t = l at hcalls hc
  cases hcalls with
  | awake hl => exact absurd (hl c hc) (not_ended hwakes)
  | starting hl _ =>
      rcases List.mem_cons.mp hc with rfl | hc
      · cases hx
      · exact absurd (hl c hc) (not_ended hwakes)
  | asleep hl hmem hnode =>
      rcases List.mem_cons.mp hc with rfl | hc
      · cases hx
        exact ⟨hmem, hnode⟩
      · exact absurd (hl c hc) (not_ended hwakes)

/-- The newest call is open or ended, and the others are ended. -/
theorem Consistent.ended_or_open (h : s.Consistent ahead) :
    (∀ c ∈ s.calls t, c.Ended ∨ c.wakes = []) ∧ ∀ c ∈ (s.calls t).tail, c.Ended := by
  have hcalls := h.calls t
  generalize s.calls t = l at hcalls
  cases hcalls with
  | awake hl => exact ⟨fun c hc => .inl (hl c hc), fun c hc => hl c (List.mem_of_mem_tail hc)⟩
  | starting hl _ | asleep hl _ _ =>
      refine ⟨fun c hc => ?_, hl⟩
      rcases List.mem_cons.mp hc with rfl | hc
      · exact .inr rfl
      · exact .inl (hl c hc)

theorem Inv.contract (h : s.Inv) : s.SleepContract := by
  have hcons := h.consistent
  constructor
  case once =>
    intro t c hc
    rcases hcons.ended_or_open.1 c hc with hended | hwakes
    · exact (length_of_ended hended).le
    · rw [hwakes]
      exact Nat.zero_le 1
  case ended =>
    intro t c hc
    exact length_of_ended (hcons.ended_or_open.2 c hc)
  case running =>
    intro p t hpc c hc
    exact length_of_ended (hcons.ended_of_exec hpc c hc)
  case wakes =>
    intro t c hc w hw
    rcases hcons.ended_or_open.1 c hc with ⟨w', x, hw', hx, hqueued, hdue⟩ | hwakes
    · rw [hw', List.mem_singleton] at hw
      subst hw
      exact ⟨hqueued, x, hx, hdue⟩
    · rw [hwakes] at hw
      cases hw
  case pushes =>
    intro w hw
    exact queued_of_shared (g := .waking) hcons.coherent (List.mem_map_of_mem hw)
      (by simp [Place.IsList])
  case asleep =>
    intro t c hc hwakes x hx
    obtain ⟨hmem, hnode⟩ := hcons.of_open hc hwakes hx
    refine ⟨?_, TimerManager.ahead_subset hnode⟩
    exact queued_of_shared (g := .suspended) hcons.coherent hmem (by simp [Place.IsList])
  case passes =>
    rintro p hpass t c hc x hx rfl hdue hwakes
    have hnode := (hcons.of_open hc hwakes hx).2
    exact (h.passing x.processer).idle hpass _ (TimerManager.ahead_subset hnode) hdue
  case sound => exact hcons.coherent.sound

theorem sleepContract_of_reach (h : Reach step Free make s) : s.SleepContract :=
  (h.invariant inv_make fun _ _ _ hinv _ hs => hinv.step hs).contract

/-- A task sleeps, and two timers of its Processer are due before it: one is created in the
callback of the other. -/
def sleepBehindTimer : List SleepEvent :=
  [.scheduler (.createTask 8), .scheduler (.addTask 0)] ++
    .replicate 6 (.scheduler (.process 0)) ++
    [.sleep 0 5, .scheduler (.process 0), .addSleeper 0 100] ++
    .replicate 7 (.scheduler (.process 0)) ++
    [.createMilliTimer 0 100 1 7, .wakeupTimers 0 6000000, .createMilliTimer 0 6000000 (-3) 8,
      .callbackReturn 0, .callbackReturn 0, .scheduler (.wakeupPush 0)]

theorem sleepContract_sleepBehindTimer :
    ∃ s, run step Free make sleepBehindTimer = some s ∧
      s.calls 0 = [⟨some ⟨0, 0, 5000100⟩, [⟨6000000, false⟩]⟩] ∧
      (s.scheduler.processers_ 0).runnableQueue_ = [0] ∧ s.SleepContract :=
  ⟨_, rfl, rfl, rfl, sleepContract_of_reach (reach_of_run sleepBehindTimer rfl)⟩

end Contract

end SleepSystem

end CppGo.Scheduling
