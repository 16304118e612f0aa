import CppGo.Lib.Arrivals
import CppGo.Timer.PassSections
import CppGo.Timer.TimerHandle

/-!
# Handles and their elements

An element of a map belongs to the timer that has its iterator, and the elements ahead of a
pass are those of timers that have not fired.  This is kept as long as only timers are stopped
whose elements are in the map and whose callbacks have not started.
-/

namespace CppGo.Timers

open CppGo.Lib CppGo.Lib.Machine

/-- A callback starts once, and not after its timer has been stopped; `StopTimer` returns
whether the timer had neither fired nor been stopped. -/
def allowed (pre : List Observation) : Observation → Prop
  | .fired i => .fired i ∉ pre ∧ .stopped i true ∉ pre
  | .woke _ => True
  | .stopped i ret => ret = true ↔ .fired i ∉ pre ∧ .stopped i true ∉ pre

namespace TimerSystem

variable {s s' : TimerSystem}

/-- A timer that has not been stopped is stopped only while its element is in the map and
its callback has not started. -/
def Pending (s : TimerSystem) (a : TimerEvent) : Prop :=
  ∀ i id p, a = .stop (some i) → s.timers[i]? = some ⟨id, some p⟩ →
    (s.manager p).timer_map_.contains id = true ∧ .fired i ∉ s.history

structure Tracked (s : TimerSystem) : Prop where
  live : s.fault = false
  element : ∀ (p : Nat) (n : Node Int TimerElement) (i : Nat),
    n ∈ (s.manager p).timer_map_.nodes → n.value = .timerTimeout i →
      s.timers[i]? = some ⟨n.id, some p⟩
  fresh : ∀ (i p id : Nat), s.timers[i]? = some ⟨id, some p⟩ →
    id < (s.manager p).timer_map_.nextId
  inj : ∀ (i j p id : Nat), s.timers[i]? = some ⟨id, some p⟩ →
    s.timers[j]? = some ⟨id, some p⟩ → i = j
  stopped : ∀ (i : Nat) (t : Timer), s.timers[i]? = some t →
    (t.processer_ = none ↔ .stopped i true ∈ s.history)
  known : ∀ i, .fired i ∈ s.history ∨ .stopped i true ∈ s.history → i < s.timers.length
  ahead : ∀ (p : Nat) (n : Node Int TimerElement) (i : Nat), n ∈ (s.manager p).ahead →
    n.value = .timerTimeout i → .fired i ∉ s.history
  cursor : ∀ (p : Nat) (pass : Pass), (s.manager p).pass = some pass →
    ∃ n ∈ (s.manager p).timer_map_.nodes, n.id = pass.it ∧
      ∃ i, n.value = .timerTimeout i ∧ .fired i ∈ s.history
  lawful : Lawful allowed s.history

theorem tracked_make : make.Tracked := by
  constructor
  case lawful => exact lawful_nil
  all_goals simp [make, TimerManager.make, TimerManager.ahead, Multimap.empty]

namespace Tracked

variable {p : Nat}

theorem valid (h : s.Tracked) (q : Nat) : (s.manager q).Valid := by
  intro pass hpass
  obtain ⟨n, hn, hid, -⟩ := h.cursor q pass hpass
  exact Multimap.contains_iff.mpr ⟨n, hn, hid⟩

theorem insert {timepoint : Int} {e : TimerElement} (h : s.Tracked)
    (hm : s'.manager = Function.update s.manager p ((s.manager p).insert timepoint e))
    (htimers : ∀ (i : Nat) (t : Timer), s'.timers[i]? = some t ↔ s.timers[i]? = some t ∨
      e = .timerTimeout i ∧ t = ⟨(s.manager p).timer_map_.nextId, some p⟩)
    (he : ∀ i, e = .timerTimeout i → i = s.timers.length)
    (hlen : s.timers.length ≤ s'.timers.length) (hhist : s'.history = s.history)
    (hlive : s'.fault = s.fault) : s'.Tracked := by
  have hself : s'.manager p = (s.manager p).insert timepoint e := by
    rw [hm, Function.update_self]
  have hother : ∀ q ≠ p, s'.manager q = s.manager q := fun q hq => by
    rw [hm, Function.update_of_ne hq]
  have hnew : ∀ i, e = .timerTimeout i → .fired i ∉ s.history ∧ .stopped i true ∉ s.history := by
    intro i hi
    have := he i hi
    constructor
    · intro hmem
      have := h.known i (.inl hmem)
      omega
    · intro hmem
      have := h.known i (.inr hmem)
      omega
  constructor
  case live =>
    rw [hlive]
    exact h.live
  case element =>
    intro q n i hn hi
    rw [htimers]
    by_cases hq : q = p
    · subst hq
      rw [hself] at hn
      rcases Multimap.mem_insert.mp hn with rfl | hn
      · exact .inr ⟨hi, rfl⟩
      · exact .inl (h.element q n i hn hi)
    · rw [hother q hq] at hn
      exact .inl (h.element q n i hn hi)
  case fresh =>
    intro i q id hi
    rw [htimers] at hi
    by_cases hq : q = p
    · subst hq
      rw [hself]
      show id < (s.manager q).timer_map_.nextId + 1
      rcases hi with hi | ⟨-, hi⟩
      · have := h.fresh i q id hi
        omega
      · cases hi
        omega
    · rw [hother q hq]
      rcases hi with hi | ⟨-, hi⟩
      · exact h.fresh i q id hi
      · cases hi
        exact absurd rfl hq
  case inj =>
    intro i j q id hi hj
    rw [htimers] at hi hj
    rcases hi with hi | ⟨hei, hi⟩ <;> rcases hj with hj | ⟨hej, hj⟩
    · exact h.inj i j q id hi hj
    · cases hj
      exact absurd (h.fresh i p _ hi) (lt_irrefl _)
    · cases hi
      exact absurd (h.fresh j p _ hj) (lt_irrefl _)
    · rw [hei] at hej
      cases hej
      rfl
  case stopped =>
    intro i t hi
    rw [htimers] at hi
    rw [hhist]
    rcases hi with hi | ⟨hei, rfl⟩
    · exact h.stopped i t hi
    · exact iff_of_false nofun (hnew i hei).2
  case known =>
    intro i hi
    rw [hhist] at hi
    exact (h.known i hi).trans_le hlen
  case ahead =>
    intro q n i hn hi
    rw [hhist]
    by_cases hq : q = p
    · subst hq
      rw [hself] at hn
      rcases TimerManager.eq_or_mem_ahead (h.valid q) hn with rfl | hn
      · exact (hnew i hi).1
      · exact h.ahead q n i hn hi
    · rw [hother q hq] at hn
      exact h.ahead q n i hn hi
  case cursor =>
    intro q pass hpass
    rw [hhist]
    by_cases hq : q = p
    · subst hq
      rw [hself] at hpass ⊢
      obtain ⟨n, hn, hcur⟩ := h.cursor q pass hpass
      exact ⟨n, Multimap.mem_insert.mpr (.inr hn), hcur⟩
    · rw [hother q hq] at hpass ⊢
      exact h.cursor q pass hpass
  case lawful =>
    rw [hhist]
    exact h.lawful

/-- The map of the Processer `p` may have lost elements, and its pass may have gone on. -/
structure Shrinks (s s' : TimerSystem) (p : Nat) : Prop where
  nodes : ∀ q, (s'.manager q).timer_map_.nodes ⊆ (s.manager q).timer_map_.nodes
  ahead : ∀ q, (s'.manager q).ahead ⊆ (s.manager q).ahead
  nextId : ∀ q, (s'.manager q).timer_map_.nextId = (s.manager q).timer_map_.nextId
  other : ∀ q ≠ p, s'.manager q = s.manager q

theorem shrinks_update {m : TimerManager} (hm : s'.manager = Function.update s.manager p m)
    (hnodes : m.timer_map_.nodes ⊆ (s.manager p).timer_map_.nodes)
    (hahead : m.ahead ⊆ (s.manager p).ahead)
    (hid : m.timer_map_.nextId = (s.manager p).timer_map_.nextId) : Shrinks s s' p := by
  have hself : s'.manager p = m := by rw [hm, Function.update_self]
  have hother : ∀ q ≠ p, s'.manager q = s.manager q := fun q hq => by
    rw [hm, Function.update_of_ne hq]
  refine ⟨fun q => ?_, fun q => ?_, fun q => ?_, hother⟩ <;> by_cases hq : q = p
  · rwa [hq, hself]
  · rw [hother q hq]
    exact List.Subset.refl _
  · rwa [hq, hself]
  · rw [hother q hq]
    exact List.Subset.refl _
  · rwa [hq, hself]
  · rw [hother q hq]

theorem lawful_woke (h : s.Tracked) (tasks : List Nat) :
    Lawful allowed (s.history ++ tasks.map .woke) := by
  apply h.lawful.append
  intro o ho pre
  obtain ⟨task, -, rfl⟩ := List.mem_map.mp ho
  trivial

theorem finished {tasks : List Nat} (h : s.Tracked) (hshrinks : Shrinks s s' p)
    (hpass : (s'.manager p).pass = none) (htimers : s'.timers = s.timers)
    (hhist : s'.history = s.history ++ tasks.map .woke) (hlive : s'.fault = s.fault) :
    s'.Tracked := by
  have hfired : ∀ i, .fired i ∈ s'.history ↔ .fired i ∈ s.history := by
    simp [hhist]
  have hstopped : ∀ i, .stopped i true ∈ s'.history ↔ .stopped i true ∈ s.history := by
    simp [hhist]
  constructor
  case live =>
    rw [hlive]
    exact h.live
  case element =>
    intro q n i hn hi
    rw [htimers]
    exact h.element q n i (hshrinks.nodes q hn) hi
  case fresh => simpa only [htimers, hshrinks.nextId] using h.fresh
  case inj => simpa only [htimers] using h.inj
  case stopped => simpa only [htimers, hstopped] using h.stopped
  case known => simpa only [htimers, hfired, hstopped] using h.known
  case ahead =>
    intro q n i hn hi
    rw [hfired]
    exact h.ahead q n i (hshrinks.ahead q hn) hi
  case cursor =>
    intro q pass hq
    have hne : q ≠ p := by
      rintro rfl
      rw [hpass] at hq
      cases hq
    rw [hshrinks.other q hne] at hq ⊢
    simpa only [hfired] using h.cursor q pass hq
  case lawful =>
    rw [hhist]
    exact h.lawful_woke tasks

theorem callback {tasks : List Nat} {now : Int} {n : Node Int TimerElement} {i : Nat}
    (h : s.Tracked) (hn : n ∈ (s.manager p).ahead) (hvalue : n.value = .timerTimeout i)
    (hshrinks : Shrinks s s' p)
    (hm : s'.manager p = { s.manager p with pass := some { now := now, it := n.id } })
    (htimers : s'.timers = s.timers)
    (hhist : s'.history = s.history ++ (tasks.map .woke ++ [.fired i]))
    (hlive : s'.fault = s.fault) : s'.Tracked := by
  have hnode := TimerManager.ahead_subset hn
  have htimer := h.element p n i hnode hvalue
  have hfired : ∀ j, .fired j ∈ s'.history ↔ .fired j ∈ s.history ∨ j = i := by
    simp [hhist]
  have hstopped : ∀ j, .stopped j true ∈ s'.history ↔ .stopped j true ∈ s.history := by
    simp [hhist]
  constructor
  case live =>
    rw [hlive]
    exact h.live
  case element =>
    intro q k j hk hj
    rw [htimers]
    exact h.element q k j (hshrinks.nodes q hk) hj
  case fresh => simpa only [htimers, hshrinks.nextId] using h.fresh
  case inj => simpa only [htimers] using h.inj
  case stopped => simpa only [htimers, hstopped] using h.stopped
  case known =>
    intro j hj
    rw [hfired, hstopped] at hj
    rw [htimers]
    rcases hj with (hj | rfl) | hj
    · exact h.known j (.inl hj)
    · exact (List.getElem?_eq_some_iff.mp htimer).1
    · exact h.known j (.inr hj)
  case ahead =>
    intro q k j hk hj hmem
    have hk' := hshrinks.ahead q hk
    rcases (hfired j).mp hmem with hmem | rfl
    · exact h.ahead q k j hk' hj hmem
    · -- the element of this callback is not behind itself
      have hkt := h.element q k j (TimerManager.ahead_subset hk') hj
      rw [htimer] at hkt
      simp only [Option.some.injEq, Timer.mk.injEq] at hkt
      obtain ⟨hid, rfl⟩ := hkt
      rw [hm] at hk
      exact Multimap.id_ne_of_after hnode hk hid.symm
  case cursor =>
    intro q pass hpass
    by_cases hq : q = p
    · subst hq
      rw [hm] at hpass ⊢
      cases hpass
      exact ⟨n, hnode, rfl, i, hvalue, (hfired i).mpr (.inr rfl)⟩
    · rw [hshrinks.other q hq] at hpass ⊢
      obtain ⟨k, hk, hid, j, hj, hmem⟩ := h.cursor q pass hpass
      exact ⟨k, hk, hid, j, hj, (hfired j).mpr (.inl hmem)⟩
  case lawful =>
    rw [hhist, ← List.append_assoc]
    apply (h.lawful_woke tasks).concat
    have hout := h.ahead p n i hn hvalue
    have hnot : .stopped i true ∉ s.history := by
      rw [← h.stopped i _ htimer]
      nofun
    simp [allowed, hout, hnot]

theorem cursor_ne {i id : Nat} {pass : Pass} (h : s.Tracked)
    (htimer : s.timers[i]? = some ⟨id, some p⟩) (hunfired : .fired i ∉ s.history)
    (hpass : (s.manager p).pass = some pass) : pass.it ≠ id := by
  intro heq
  obtain ⟨n, hn, hid, j, hj, hmem⟩ := h.cursor p pass hpass
  have hnt := h.element p n j hn hj
  rw [hid, heq] at hnt
  rw [h.inj i j p id htimer hnt] at hunfired
  exact hunfired hmem

theorem stop {i id : Nat} (h : s.Tracked) (htimer : s.timers[i]? = some ⟨id, some p⟩)
    (hunfired : .fired i ∉ s.history)
    (hm : s'.manager = Function.update s.manager p ((s.manager p).erase id))
    (htimers : s'.timers = s.timers.set i ⟨id, none⟩)
    (hhist : s'.history = s.history ++ [.stopped i true]) (hlive : s'.fault = s.fault) :
    s'.Tracked := by
  have hself : s'.manager p = (s.manager p).erase id := by rw [hm, Function.update_self]
  have hcursor : ∀ pass, (s.manager p).pass = some pass → pass.it ≠ id := fun _ hpass =>
    h.cursor_ne htimer hunfired hpass
  have hshrinks : Shrinks s s' p :=
    shrinks_update hm (fun n hn => (Multimap.mem_erase.mp hn).1)
      (fun n hn => ((TimerManager.mem_ahead_erase hcursor).mp hn).1) rfl
  have hlt : i < s.timers.length := (List.getElem?_eq_some_iff.mp htimer).1
  have hset : ∀ (j : Nat) (t : Timer), s'.timers[j]? = some t ↔
      j = i ∧ t = ⟨id, none⟩ ∨ j ≠ i ∧ s.timers[j]? = some t := by
    intro j t
    rw [htimers]
    by_cases hj : j = i
    · subst hj
      simp [List.getElem?_set_self hlt, eq_comm]
    · simp [List.getElem?_set_ne (Ne.symm hj), hj]
  have hold : ∀ (j q x : Nat), s'.timers[j]? = some ⟨x, some q⟩ →
      s.timers[j]? = some ⟨x, some q⟩ := by
    intro j q x hj
    rcases (hset j _).mp hj with ⟨-, hj⟩ | ⟨-, hj⟩
    · cases hj
    · exact hj
  have hfired : ∀ j, .fired j ∈ s'.history ↔ .fired j ∈ s.history := by
    simp [hhist]
  have hstopped : ∀ j, .stopped j true ∈ s'.history ↔ .stopped j true ∈ s.history ∨ j = i := by
    simp [hhist]
  constructor
  case live =>
    rw [hlive]
    exact h.live
  case element =>
    intro q n j hn hj
    have hjt := h.element q n j (hshrinks.nodes q hn) hj
    refine (hset j _).mpr (.inr ⟨?_, hjt⟩)
    rintro rfl
    rw [htimer] at hjt
    simp only [Option.some.injEq, Timer.mk.injEq] at hjt
    obtain ⟨hid, rfl⟩ := hjt
    rw [hself] at hn
    exact (Multimap.mem_erase.mp hn).2 hid.symm
  case fresh =>
    intro j q x hj
    rw [hshrinks.nextId]
    exact h.fresh j q x (hold j q x hj)
  case inj =>
    intro j k q x hj hk
    exact h.inj j k q x (hold j q x hj) (hold k q x hk)
  case stopped =>
    intro j t hj
    rw [hstopped]
    rcases (hset j t).mp hj with ⟨rfl, rfl⟩ | ⟨hne, hj⟩
    · exact iff_of_true rfl (.inr rfl)
    · rw [h.stopped j t hj]
      simp [hne]
  case known =>
    intro j hj
    rw [hfired, hstopped] at hj
    rw [htimers, List.length_set]
    rcases hj with hj | hj | rfl
    · exact h.known j (.inl hj)
    · exact h.known j (.inr hj)
    · exact hlt
  case ahead =>
    intro q n j hn hj
    rw [hfired]
    exact h.ahead q n j (hshrinks.ahead q hn) hj
  case cursor =>
    intro q pass hpass
    by_cases hq : q = p
    · subst hq
      rw [hself] at hpass ⊢
      obtain ⟨n, hn, hit, j, hj, hmem⟩ := h.cursor q pass hpass
      refine ⟨n, Multimap.mem_erase.mpr ⟨hn, ?_⟩, hit, j, hj, (hfired j).mpr hmem⟩
      rw [hit]
      exact h.cursor_ne htimer hunfired hpass
    · rw [hshrinks.other q hq] at hpass ⊢
      simpa only [hfired] using h.cursor q pass hpass
  case lawful =>
    rw [hhist]
    apply h.lawful.concat
    have hnot : .stopped i true ∉ s.history := by
      rw [← h.stopped i _ htimer]
      nofun
    exact iff_of_true rfl ⟨hunfired, hnot⟩

theorem stopLate {i : Nat} {timer : Timer} (h : s.Tracked) (htimer : s.timers[i]? = some timer)
    (hproc : timer.processer_ = none) : (s.observe [.stopped i false]).Tracked := by
  have hhist : (s.observe [.stopped i false]).history = s.history ++ [.stopped i false] := rfl
  have hfired : ∀ j, .fired j ∈ s.history ++ [.stopped i false] ↔ .fired j ∈ s.history := by
    simp
  have hstopped : ∀ j, .stopped j true ∈ s.history ++ [.stopped i false] ↔
      .stopped j true ∈ s.history := by
    simp
  constructor
  case live => exact h.live
  case element => exact h.element
  case fresh => exact h.fresh
  case inj => exact h.inj
  case stopped =>
    intro j t hj
    rw [hhist, hstopped]
    exact h.stopped j t hj
  case known =>
    intro j hj
    rw [hhist, hfired, hstopped] at hj
    exact h.known j hj
  case ahead =>
    intro q n j hn hj
    rw [hhist, hfired]
    exact h.ahead q n j hn hj
  case cursor =>
    intro q pass hpass
    simp only [hhist, hfired]
    exact h.cursor q pass hpass
  case lawful =>
    apply h.lawful.concat
    have hmem := (h.stopped i timer htimer).mp hproc
    exact iff_of_false nofun fun hnot => hnot.2 hmem

theorem outcome {a : TimerEvent} (h : s.Tracked) (hc : s.Pending a)
    (ho : Outcome s a s') : s'.Tracked := by
  have hsection : ∀ {now : Int} {r : TimerManager × List Observation} {p : Nat},
      (s.manager p).Section now (s.manager p).ahead r → (s.ran p r).Tracked := by
    intro now r p hr
    cases hr with
    | @callback tasks n i hn hvalue hahead =>
        exact h.callback hn hvalue (shrinks_update rfl (List.Subset.refl _) hahead rfl)
          (Function.update_self _ _ _) rfl rfl rfl
    | @finished tasks it hahead =>
        refine h.finished (p := p) (shrinks_update rfl ?_ hahead rfl) ?_ rfl rfl rfl
        · exact ((s.manager p).timer_map_.starting_sublist it).subset
        · simp [ran, setManager, observe]
  cases ho with
  | create p timepoint =>
      refine h.insert (p := p) (e := .timerTimeout s.timers.length) rfl ?_ ?_ ?_ rfl rfl
      · intro i t
        show (s.timers ++ [_])[i]? = some t ↔ _
        rw [Arrivals.getElem?_concat_iff]
        simp [eq_comm]
      · simp
      · simp [createMilliTimer]
  | sleep p timepoint task =>
      exact h.insert (p := p) rfl (by simp [setManager]) (by simp) le_rfl rfl rfl
  | idle p now =>
      have heq : s.ran p (s.manager p, []) = s := by
        simp [ran, setManager, observe]
      rw [heq]
      exact h
  | begins hr => exact hsection hr
  | goesOn hr => exact hsection hr
  | lost hpass hit =>
      rw [h.valid _ _ hpass] at hit
      cases hit
  | noHandle => exact h
  | stopLate htimer hproc => exact h.stopLate htimer hproc
  | @stop i p timer htimer hproc hid =>
      have htimer' : s.timers[i]? = some ⟨timer.id_, some p⟩ := by rw [htimer, ← hproc]
      exact h.stop htimer' (hc i _ p rfl htimer').2 rfl rfl rfl rfl
  | @dangling i p timer htimer hproc hid =>
      have htimer' : s.timers[i]? = some ⟨timer.id_, some p⟩ := by rw [htimer, ← hproc]
      rw [(hc i _ p rfl htimer').1] at hid
      cases hid

end Tracked

/-! ## Sections of a pass -/

variable {e : TimerEvent} {t : TimerSystem} {p : Nat} {now : Int}

def passOf (s : TimerSystem) : TimerEvent → Option (Nat × Int)
  | .wakeup p now => some (p, now)
  | .callbackReturn p => (s.manager p).pass.map fun pass => (p, pass.now)
  | _ => none

/-- A section of a pass is the loop over what is ahead of it. -/
theorem step_pass (h : s.Tracked) (hpass : s.passOf e = some (p, now)) (hs : s.step e = some t) :
    t = s.ran p ((s.manager p).loop now (s.manager p).ahead) := by
  unfold step at hs
  rw [if_neg (by rw [h.live]; exact Bool.false_ne_true)] at hs
  cases e with
  | wakeup q now' =>
      cases hpass
      simp only [stepLive, Option.ite_none_right_eq_some, Option.some.injEq] at hs
      obtain ⟨hnone, rfl⟩ := hs
      rw [TimerManager.ahead_of_none hnone, TimerManager.wakeupTimers_eq_loop hnone]
  | callbackReturn q =>
      obtain ⟨pass, hsome, hp⟩ := Option.map_eq_some_iff.mp hpass
      cases hp
      simp only [stepLive, hsome, h.valid _ _ hsome, if_true, Option.some.injEq] at hs
      unfold TimerManager.ahead
      rw [hsome]
      exact hs.symm
  | create q timepoint => cases hpass
  | sleep q timepoint task => cases hpass
  | stop id => cases hpass

end TimerSystem

end CppGo.Timers
