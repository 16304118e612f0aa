import CppGo.Lib.Observer
import CppGo.Timer.TrackedTimers

/-!
# The order in which timers and sleepers expire

Every Processer with its map, over any number of passes of `WakeupTimers`, with timers created and
stopped between their sections.  As long as the clock does not go back, what has expired and what
is still ahead are one sorted list, to which a new element is added behind all that has expired.
-/

namespace CppGo.Timers

open CppGo.Lib CppGo.Lib.Machine

inductive ElementEvent
  | created (p : Nat) (n : Node Int TimerElement)
  /-- in a pass with the clock value `now` -/
  | expired (p : Nat) (now : Int) (n : Node Int TimerElement)
  | stopped (p : Nat) (n : Node Int TimerElement)

namespace ElementEvent

def createdOn (p : Nat) : ElementEvent → Option (Node Int TimerElement)
  | created q n => if q = p then some n else none
  | _ => none

def expiredOn (p : Nat) : ElementEvent → Option (Node Int TimerElement)
  | expired q _ n => if q = p then some n else none
  | _ => none

def stoppedOn (p : Nat) : ElementEvent → Option (Node Int TimerElement)
  | stopped q n => if q = p then some n else none
  | _ => none

def clockOn (p : Nat) : ElementEvent → Option Int
  | expired q now _ => if q = p then some now else none
  | _ => none

def processer : ElementEvent → Nat
  | created p _ | expired p _ _ | stopped p _ => p

def observation : ElementEvent → Option Observation
  | expired _ _ n => some (shownBy n)
  | _ => none

/-- The elements that have been created, that have expired and that have been stopped. -/
def createds (p : Nat) (os : List ElementEvent) : List (Node Int TimerElement) :=
  os.filterMap (createdOn p)

def expireds (p : Nat) (os : List ElementEvent) : List (Node Int TimerElement) :=
  os.filterMap (expiredOn p)

def stoppeds (p : Nat) (os : List ElementEvent) : List (Node Int TimerElement) :=
  os.filterMap (stoppedOn p)

variable {p q : Nat} {os es : List ElementEvent}

theorem createds_append : createds p (os ++ es) = createds p os ++ createds p es :=
  List.filterMap_append

theorem expireds_append : expireds p (os ++ es) = expireds p os ++ expireds p es :=
  List.filterMap_append

theorem stoppeds_append : stoppeds p (os ++ es) = stoppeds p os ++ stoppeds p es :=
  List.filterMap_append

theorem nothing_on (h : ∀ e ∈ es, e.processer = p) (hq : q ≠ p) :
    createds q es = [] ∧ expireds q es = [] ∧ stoppeds q es = [] := by
  refine ⟨?_, ?_, ?_⟩ <;>
  · apply List.filterMap_eq_nil_iff.mpr
    intro e he
    have hp := h e he
    cases e <;> simp_all [createdOn, expiredOn, stoppedOn, processer, eq_comm]

theorem map_expired (now : Int) (l : List (Node Int TimerElement)) :
    createds p (l.map (expired p now)) = [] ∧ expireds p (l.map (expired p now)) = l ∧
      stoppeds p (l.map (expired p now)) = [] := by
  simp [createds, expireds, stoppeds, List.filterMap_map, createdOn, expiredOn, stoppedOn,
    Function.comp_def]

theorem stoppeds_append_of_none (h : ∀ e ∈ es, stoppedOn p e = none) :
    stoppeds p (os ++ es) = stoppeds p os := by
  rw [stoppeds_append, show stoppeds p es = [] from List.filterMap_eq_nil_iff.mpr h,
    List.append_nil]

theorem mem_expireds {n : Node Int TimerElement} :
    n ∈ expireds p os ↔ ∃ now, expired p now n ∈ os := by
  constructor
  · intro hn
    obtain ⟨e, he, hen⟩ := List.mem_filterMap.mp hn
    cases e with
    | expired q now k =>
        simp only [expiredOn, Option.ite_none_right_eq_some, Option.some.injEq] at hen
        obtain ⟨rfl, rfl⟩ := hen
        exact ⟨now, he⟩
    | _ => cases hen
  · rintro ⟨now, hn⟩
    exact List.mem_filterMap.mpr ⟨_, hn, if_pos rfl⟩

end ElementEvent

/-! ## One map -/

section Map

variable {m : TimerManager} {now timepoint : Int} {element : TimerElement}
  {n : Node Int TimerElement} {created expired stopped : List (Node Int TimerElement)}

open TimerManager

/-- The elements that have been created, that have expired and that have been stopped, in order. -/
structure Keeps (m : TimerManager) (created expired stopped : List (Node Int TimerElement)) :
    Prop where
  order : (expired ++ m.ahead).Pairwise Node.Before
  conserved : created.Perm (expired ++ m.ahead ++ stopped)
  fresh : ∀ n ∈ created, n.id < m.timer_map_.nextId
  /-- what the pass has gone past -/
  behind : ∃ front, m.timer_map_.nodes = front ++ m.ahead ∧ ∀ n ∈ front, n ∈ expired

namespace Keeps

theorem make : Keeps .make [] [] [] where
  order := .nil
  conserved := .refl _
  fresh := nofun
  behind := ⟨[], rfl, nofun⟩

variable (h : Keeps m created expired stopped)
include h

theorem created_of_expired (hn : n ∈ expired) : n ∈ created :=
  h.conserved.mem_iff.mpr (List.mem_append_left _ (List.mem_append_left _ hn))

theorem expired_or_ahead (hn : n ∈ m.timer_map_.nodes) : n ∈ expired ∨ n ∈ m.ahead := by
  obtain ⟨front, hnodes, hfront⟩ := h.behind
  rw [hnodes, List.mem_append] at hn
  exact hn.imp_left (hfront n)

theorem loop (now : Int) :
    Keeps (m.loop now m.ahead).1 created (expired ++ served now m.ahead) stopped := by
  obtain ⟨front, hnodes, hfront⟩ := h.behind
  have hserved : Served m now front (m.loop now m.ahead) := served_loop hnodes
  constructor
  case order =>
    rw [List.append_assoc, ← hserved.split]
    exact h.order
  case conserved =>
    rw [List.append_assoc expired, ← hserved.split]
    exact h.conserved
  case fresh =>
    rw [hserved.nextId]
    exact h.fresh
  case behind =>
    obtain ⟨front', hnodes', hfront'⟩ := hserved.behind
    refine ⟨front', hnodes', fun n hn => ?_⟩
    rcases List.mem_append.mp (hfront' n hn) with hold | hnew
    · exact List.mem_append_left _ (hfront n hold)
    · exact List.mem_append_right _ hnew

theorem insert (hvalid : m.Valid) (hlate : ∀ n ∈ expired, n.key ≤ timepoint) :
    Keeps (m.insert timepoint element)
      (created ++ [⟨m.timer_map_.nextId, timepoint, element⟩]) expired stopped := by
  obtain ⟨front, hnodes, hfront⟩ := h.behind
  have hahead : (m.insert timepoint element).ahead =
      Multimap.insertNode ⟨m.timer_map_.nextId, timepoint, element⟩ m.ahead :=
    ahead_insert hvalid hnodes fun n hn => hlate n (hfront n hn)
  constructor
  case order =>
    rw [hahead, ← Multimap.insertNode_append_of_le hlate]
    refine Multimap.sorted_insertNode h.order fun n hn => h.fresh n ?_
    exact h.conserved.mem_iff.mpr (List.mem_append_left _ hn)
  case conserved =>
    rw [hahead]
    calc List.Perm (created ++ [⟨m.timer_map_.nextId, timepoint, element⟩])
          (⟨m.timer_map_.nextId, timepoint, element⟩ :: created) := List.perm_append_singleton _ _
      List.Perm _ (⟨m.timer_map_.nextId, timepoint, element⟩ ::
          (expired ++ (m.ahead ++ stopped))) := by
        rw [← List.append_assoc]
        exact h.conserved.cons _
      List.Perm _ (expired ++ ((⟨m.timer_map_.nextId, timepoint, element⟩ :: m.ahead) ++
          stopped)) := List.perm_middle.symm
      List.Perm _ (expired ++ (Multimap.insertNode ⟨m.timer_map_.nextId, timepoint, element⟩
          m.ahead ++ stopped)) :=
        (Multimap.perm_insertNode.symm.append_right stopped).append_left expired
      List.Perm _ _ := by rw [List.append_assoc]
  case fresh =>
    intro n hn
    show n.id < m.timer_map_.nextId + 1
    rcases List.mem_append.mp hn with hold | hnew
    · exact (h.fresh n hold).trans (Nat.lt_succ_self _)
    · rw [List.mem_singleton.mp hnew]
      exact Nat.lt_succ_self _
  case behind =>
    refine ⟨front, ?_, hfront⟩
    show Multimap.insertNode _ m.timer_map_.nodes = _
    rw [hahead, hnodes, Multimap.insertNode_append_of_le fun n hn => hlate n (hfront n hn)]

theorem erase (hvalid : m.Valid) (hn : n ∈ m.ahead) :
    Keeps (m.erase n.id) created expired (stopped ++ [n]) := by
  obtain ⟨front, hnodes, hfront⟩ := h.behind
  obtain ⟨pre, post, hsplit, hahead, hnodes'⟩ := ahead_erase hvalid hnodes hn
  constructor
  case order =>
    rw [hahead]
    refine h.order.sublist (List.Sublist.append_left ?_ _)
    rw [hsplit]
    exact List.Sublist.append_left (List.sublist_cons_self n post) pre
  case conserved =>
    rw [hahead]
    have hmoved : (pre ++ n :: post ++ stopped).Perm (pre ++ post ++ (stopped ++ [n])) := by
      calc List.Perm (pre ++ n :: post ++ stopped) (n :: (pre ++ post ++ stopped)) :=
            List.perm_middle.append_right stopped
        List.Perm _ (pre ++ post ++ stopped ++ [n]) := (List.perm_append_singleton _ _).symm
        List.Perm _ _ := by rw [List.append_assoc]
    have hconserved := h.conserved
    rw [hsplit, List.append_assoc] at hconserved
    rw [List.append_assoc expired]
    exact hconserved.trans (hmoved.append_left expired)
  case fresh => exact h.fresh
  case behind => exact ⟨front, by rw [hahead, hnodes'], hfront⟩

end Keeps

end Map

/-! ## Every Processer -/

def Observation.ofElement : Observation → Bool
  | .stopped _ _ => false
  | .fired _ | .woke _ => true

namespace TimerSystem

open ElementEvent

def expires (s : TimerSystem) (e : TimerEvent) : List ElementEvent :=
  match s.passOf e with
  | none => []
  | some (p, now) => (served now (s.manager p).ahead).map (.expired p now)

def shown (s : TimerSystem) : TimerEvent → List ElementEvent
  | .create p timepoint =>
      [.created p ⟨(s.manager p).timer_map_.nextId, timepoint, .timerTimeout s.timers.length⟩]
  | .sleep p timepoint task =>
      [.created p ⟨(s.manager p).timer_map_.nextId, timepoint, .taskTimeout task⟩]
  | .stop none => []
  | .stop (some i) =>
      match s.timers[i]? with
      | some ⟨id, some p⟩ =>
          ((s.manager p).timer_map_.nodes.filter fun n => n.id = id).map (.stopped p)
      | _ => []
  | e => s.expires e

/-- The clock does not go back: a point in time that a call computes is not before the clock
value of a pass in which an element has expired.  Only timers are stopped that have been
stopped or have not fired. -/
def Clocked (w : TimerSystem × List ElementEvent) : TimerEvent → Prop
  | .create p timepoint | .sleep p timepoint _ =>
      ∀ now ∈ w.2.filterMap (clockOn p), now ≤ timepoint
  | .stop (some i) => ∀ timer ∈ w.1.timers[i]?, timer.processer_ ≠ none → .fired i ∉ w.1.history
  | _ => True

instance (w : TimerSystem × List ElementEvent) : ∀ e, Decidable (Clocked w e)
  | .create p timepoint | .sleep p timepoint _ =>
      inferInstanceAs (Decidable (∀ now ∈ w.2.filterMap (clockOn p), now ≤ timepoint))
  | .stop (some i) => inferInstanceAs (Decidable
      (∀ timer ∈ w.1.timers[i]?, timer.processer_ ≠ none → .fired i ∉ w.1.history))
  | .wakeup _ _ | .callbackReturn _ | .stop none => .isTrue trivial

/-- The elements of every Processer expire by deadline, and in the order of their creation where
these are equal; none expires early, none twice, and none is lost. -/
structure ExpiryContract (s : TimerSystem) (os : List ElementEvent) : Prop where
  order : ∀ p, (expireds p os ++ (s.manager p).ahead).Pairwise Node.Before
  conserved : ∀ p, (createds p os).Perm (expireds p os ++ (s.manager p).ahead ++ stoppeds p os)
  due : ∀ p now n, .expired p now n ∈ os → n.key ≤ now
  observed : s.history.filter Observation.ofElement = os.filterMap observation
  /-- a pass that is over has left nothing that is due -/
  complete : ∀ e p now t, s.passOf e = some (p, now) → s.step e = some t →
    (t.manager p).pass = none → ∀ n ∈ (t.manager p).timer_map_.nodes, now < n.key

structure Expiring (s : TimerSystem) (os : List ElementEvent) : Prop where
  tracked : s.Tracked
  keeps : ∀ p, Keeps (s.manager p) (createds p os) (expireds p os) (stoppeds p os)
  due : ∀ p now n, .expired p now n ∈ os → n.key ≤ now
  observed : s.history.filter Observation.ofElement = os.filterMap observation
  /-- an element belongs to the timer that has its iterator -/
  owned : ∀ i id p, s.timers[i]? = some ⟨id, some p⟩ → ∀ n ∈ createds p os, n.id = id →
    n.value = .timerTimeout i
  /-- a timer that has not been stopped has an element that has not been stopped -/
  made : ∀ i id p : Nat, s.timers[i]? = some ⟨id, some p⟩ →
    ∃ n ∈ createds p os, n.id = id ∧ n ∉ stoppeds p os

variable {s t : TimerSystem} {os es : List ElementEvent} {e : TimerEvent} {p : Nat} {now : Int}

theorem shown_of_pass (hpass : s.passOf e = some (p, now)) :
    s.shown e = (served now (s.manager p).ahead).map (.expired p now) := by
  have hexpires : s.expires e = (served now (s.manager p).ahead).map (.expired p now) := by
    unfold expires
    rw [hpass]
  cases e with
  | wakeup q now' => exact hexpires
  | callbackReturn q => exact hexpires
  | create q timepoint => cases hpass
  | sleep q timepoint task => cases hpass
  | stop id => cases hpass

theorem expiring_make : Expiring make [] where
  tracked := tracked_make
  keeps _ := Keeps.make
  due := nofun
  observed := rfl
  owned := nofun
  made := nofun

namespace Expiring

theorem keeps_of {m : TimerManager} (h : Expiring s os)
    (hm : t.manager = Function.update s.manager p m) (hes : ∀ e ∈ es, e.processer = p)
    (hp : Keeps m (createds p os ++ createds p es) (expireds p os ++ expireds p es)
      (stoppeds p os ++ stoppeds p es)) (q : Nat) :
    Keeps (t.manager q) (createds q (os ++ es)) (expireds q (os ++ es))
      (stoppeds q (os ++ es)) := by
  rw [createds_append, expireds_append, stoppeds_append, hm]
  by_cases hq : q = p
  · subst hq
    rw [Function.update_self]
    exact hp
  · obtain ⟨hcreated, hexpired, hstopped⟩ := nothing_on hes hq
    rw [Function.update_of_ne hq, hcreated, hexpired, hstopped, List.append_nil, List.append_nil,
      List.append_nil]
    exact h.keeps q

theorem pass (h : Expiring s os) (htracked : t.Tracked) (hpass : s.passOf e = some (p, now))
    (hs : s.step e = some t) : Expiring t (os ++ s.shown e) := by
  rw [shown_of_pass hpass]
  obtain rfl := step_pass h.tracked hpass hs
  obtain ⟨front, hnodes, -⟩ := (h.keeps p).behind
  have hserved : (s.manager p).Served now front ((s.manager p).loop now (s.manager p).ahead) :=
    TimerManager.served_loop hnodes
  obtain ⟨hcreated, hexpired, hstopped⟩ := map_expired (p := p) now
    (served now (s.manager p).ahead)
  constructor
  case tracked => exact htracked
  case keeps =>
    refine h.keeps_of rfl ?_ ?_
    · intro e he
      obtain ⟨n, -, rfl⟩ := List.mem_map.mp he
      rfl
    · rw [hcreated, hexpired, hstopped, List.append_nil, List.append_nil]
      exact (h.keeps p).loop now
  case due =>
    intro q now' n hn
    rcases List.mem_append.mp hn with hold | hnew
    · exact h.due q now' n hold
    · obtain ⟨k, hk, heq⟩ := List.mem_map.mp hnew
      cases heq
      exact hserved.due n hk
  case observed =>
    show (s.history ++ _).filter _ = _
    rw [List.filter_append, List.filterMap_append, h.observed, hserved.shown]
    congr 1
    rw [List.filterMap_map, List.filter_eq_self.mpr]
    · exact (congrFun List.filterMap_eq_map _).symm
    · intro o ho
      obtain ⟨n, -, rfl⟩ := List.mem_map.mp ho
      unfold shownBy
      split <;> rfl
  case owned =>
    intro i id q htimer n hn
    rw [createds_append] at hn
    rcases List.mem_append.mp hn with hold | hnew
    · exact h.owned i id q htimer n hold
    · obtain ⟨e', he', hen⟩ := List.mem_filterMap.mp hnew
      obtain ⟨k, -, rfl⟩ := List.mem_map.mp he'
      cases hen
  case made =>
    intro i id q htimer
    obtain ⟨n, hn, hid, hnot⟩ := h.made i id q htimer
    rw [createds_append, stoppeds_append_of_none]
    · exact ⟨n, List.mem_append_left _ hn, hid, hnot⟩
    · intro e he
      obtain ⟨k, -, rfl⟩ := List.mem_map.mp he
      rfl

theorem insert {timepoint : Int} {element : TimerElement} (h : Expiring s os)
    (htracked : t.Tracked)
    (hm : t.manager = Function.update s.manager p ((s.manager p).insert timepoint element))
    (hlate : ∀ now ∈ os.filterMap (clockOn p), now ≤ timepoint) (hhistory : t.history = s.history)
    (htimers : ∀ i id q, t.timers[i]? = some ⟨id, some q⟩ → s.timers[i]? = some ⟨id, some q⟩ ∨
      q = p ∧ id = (s.manager p).timer_map_.nextId ∧ element = .timerTimeout i) :
    Expiring t (os ++ [.created p ⟨(s.manager p).timer_map_.nextId, timepoint, element⟩]) := by
  have hcreated : createds p [.created p ⟨(s.manager p).timer_map_.nextId, timepoint, element⟩] =
      [⟨(s.manager p).timer_map_.nextId, timepoint, element⟩] := by
    simp [createds, createdOn]
  constructor
  case tracked => exact htracked
  case keeps =>
    refine h.keeps_of hm ?_ ?_
    · intro e he
      rw [List.mem_singleton.mp he]
      rfl
    · rw [hcreated]
      show Keeps _ _ (_ ++ []) (_ ++ [])
      rw [List.append_nil, List.append_nil]
      refine (h.keeps p).insert (h.tracked.valid p) fun n hn => ?_
      obtain ⟨now, hexpired⟩ := mem_expireds.mp hn
      have hclock : now ∈ os.filterMap (clockOn p) :=
        List.mem_filterMap.mpr ⟨_, hexpired, if_pos rfl⟩
      exact (h.due p now n hexpired).trans (hlate now hclock)
  case due =>
    intro q now n hn
    rcases List.mem_append.mp hn with hold | hnew
    · exact h.due q now n hold
    · cases List.mem_singleton.mp hnew
  case observed =>
    rw [hhistory, List.filterMap_append, h.observed]
    exact (List.append_nil _).symm
  case owned =>
    intro i id q htimer n hn hid
    rw [createds_append] at hn
    rcases List.mem_append.mp hn with hold | hnew
    · rcases htimers i id q htimer with htimer | ⟨rfl, rfl, -⟩
      · exact h.owned i id q htimer n hold hid
      · exact absurd hid ((h.keeps q).fresh n hold).ne
    · by_cases hq : q = p
      · subst hq
        rw [hcreated, List.mem_singleton] at hnew
        subst hnew
        rcases htimers i id q htimer with htimer | ⟨-, -, helement⟩
        · exact absurd hid.symm (h.tracked.fresh i q id htimer).ne
        · exact helement
      · have hnone : createds q
            [.created p ⟨(s.manager p).timer_map_.nextId, timepoint, element⟩] = [] :=
          (nothing_on (p := p) (by simp [processer]) hq).1
        rw [hnone] at hnew
        cases hnew
  case made =>
    intro i id q htimer
    rw [createds_append, stoppeds_append_of_none (by simp [stoppedOn])]
    rcases htimers i id q htimer with htimer | ⟨rfl, rfl, -⟩
    · obtain ⟨n, hn, hid, hnot⟩ := h.made i id q htimer
      exact ⟨n, List.mem_append_left _ hn, hid, hnot⟩
    · refine ⟨_, List.mem_append_right _ (hcreated ▸ List.mem_singleton_self _), rfl, ?_⟩
      intro hstopped
      have hold := (h.keeps q).conserved.mem_iff.mpr (List.mem_append_right _ hstopped)
      exact absurd rfl ((h.keeps q).fresh _ hold).ne

theorem not_expired {i : Nat} {n : Node Int TimerElement} (h : Expiring s os)
    (htimer : s.timers[i]? = some ⟨n.id, some p⟩) (hunfired : .fired i ∉ s.history) :
    n ∉ expireds p os := by
  intro hexpired
  have hvalue := h.owned i n.id p htimer n ((h.keeps p).created_of_expired hexpired) rfl
  obtain ⟨now, hin⟩ := mem_expireds.mp hexpired
  apply hunfired
  have hobserved : .fired i ∈ os.filterMap observation :=
    List.mem_filterMap.mpr ⟨_, hin, by simp [observation, shownBy, hvalue]⟩
  rw [← h.observed] at hobserved
  exact List.mem_of_mem_filter hobserved

theorem pending (h : Expiring s os) (hc : Clocked (s, os) e) : s.Pending e := by
  rintro i id p rfl htimer
  have hunfired : .fired i ∉ s.history := hc _ htimer (by simp)
  refine ⟨?_, hunfired⟩
  obtain ⟨n, hn, rfl, hnot⟩ := h.made i id p htimer
  rw [(h.keeps p).conserved.mem_iff, List.mem_append, List.mem_append] at hn
  rcases hn with (hexpired | hahead) | hstopped
  · exact absurd hexpired (h.not_expired htimer hunfired)
  · exact Multimap.contains_iff.mpr ⟨n, TimerManager.ahead_subset hahead, rfl⟩
  · exact absurd hstopped hnot

theorem stop {i id : Nat} (h : Expiring s os) (htracked : t.Tracked)
    (htimer : s.timers[i]? = some ⟨id, some p⟩) (hunfired : .fired i ∉ s.history)
    (hid : (s.manager p).timer_map_.contains id = true)
    (hm : t.manager = Function.update s.manager p ((s.manager p).erase id))
    (hhistory : t.history = s.history ++ [.stopped i true])
    (htimers : ∀ j id q : Nat,
      t.timers[j]? = some ⟨id, some q⟩ → j ≠ i ∧ s.timers[j]? = some ⟨id, some q⟩) :
    Expiring t (os ++ s.shown (.stop (some i))) := by
  obtain ⟨n, hn, rfl⟩ := Multimap.contains_iff.mp hid
  have hahead : n ∈ (s.manager p).ahead :=
    ((h.keeps p).expired_or_ahead hn).resolve_left (h.not_expired htimer hunfired)
  have hshown : s.shown (.stop (some i)) = [.stopped p n] := by
    simp only [shown, htimer, TimerManager.filter_id hn, List.map_singleton]
  rw [hshown]
  have hstopped : stoppeds p [.stopped p n] = [n] := by
    simp [stoppeds, stoppedOn]
  constructor
  case tracked => exact htracked
  case keeps =>
    refine h.keeps_of hm ?_ ?_
    · intro e he
      rw [List.mem_singleton.mp he]
      rfl
    · rw [hstopped]
      show Keeps _ (_ ++ []) (_ ++ []) _
      rw [List.append_nil, List.append_nil]
      exact (h.keeps p).erase (h.tracked.valid p) hahead
  case due =>
    intro q now k hk
    rcases List.mem_append.mp hk with hold | hnew
    · exact h.due q now k hold
    · cases List.mem_singleton.mp hnew
  case observed =>
    rw [hhistory, List.filter_append, List.filterMap_append, h.observed]
    rfl
  case owned =>
    intro j id q htimer k hk
    rw [createds_append] at hk
    rcases List.mem_append.mp hk with hold | hnew
    · exact h.owned j id q (htimers j id q htimer).2 k hold
    · cases hnew
  case made =>
    intro j id q htimer'
    obtain ⟨hne, hold⟩ := htimers j id q htimer'
    obtain ⟨k, hk, rfl, hnot⟩ := h.made j id q hold
    rw [createds_append, stoppeds_append]
    refine ⟨k, List.mem_append_left _ hk, rfl, fun hmem => ?_⟩
    rcases List.mem_append.mp hmem with hstopped | hnew
    · exact hnot hstopped
    · simp only [stoppeds, stoppedOn, List.filterMap_cons, List.filterMap_nil] at hnew
      by_cases hq : p = q
      · subst hq
        simp only [if_true, List.mem_singleton] at hnew
        subst hnew
        exact hne (h.tracked.inj j i p k.id hold htimer)
      · simp [hq] at hnew

theorem unchanged (h : Expiring s os) (htracked : t.Tracked) (hm : t.manager = s.manager)
    (htimers : t.timers = s.timers)
    (hhistory : t.history.filter Observation.ofElement = s.history.filter Observation.ofElement) :
    Expiring t os where
  tracked := htracked
  keeps := by
    rw [hm]
    exact h.keeps
  due := h.due
  observed := by
    rw [hhistory]
    exact h.observed
  owned := by
    rw [htimers]
    exact h.owned
  made := by
    rw [htimers]
    exact h.made

theorem step (h : Expiring s os) (hc : Clocked (s, os) e) (hs : s.step e = some t) :
    Expiring t (os ++ s.shown e) := by
  obtain ⟨hlive, houtcome⟩ := step_outcome hs
  have htracked := h.tracked.outcome (h.pending hc) houtcome
  cases e with
  | create p timepoint =>
      cases houtcome
      refine h.insert htracked rfl hc rfl fun i id q htimer => ?_
      have hconcat : (s.timers ++ [⟨(s.manager p).timer_map_.nextId, some p⟩])[i]? =
          some ⟨id, some q⟩ := htimer
      rcases Arrivals.getElem?_concat_iff.mp hconcat with hold | ⟨rfl, heq⟩
      · exact .inl hold
      · cases heq
        exact .inr ⟨rfl, rfl, rfl⟩
  | sleep p timepoint task =>
      cases houtcome
      exact h.insert htracked rfl hc rfl fun i id q htimer => .inl htimer
  | wakeup p now => exact h.pass htracked rfl hs
  | callbackReturn p =>
      cases hpass : (s.manager p).pass with
      | none =>
          rw [TimerSystem.step, hlive] at hs
          simp [stepLive, hpass] at hs
      | some pass =>
          have hpassOf : s.passOf (.callbackReturn p) = some (p, pass.now) := by
            rw [passOf, hpass, Option.map_some]
          exact h.pass htracked hpassOf hs
  | stop id =>
      cases houtcome with
      | noHandle => exact (List.append_nil os).symm ▸ h
      | @stopLate i timer htimer hproc =>
          have hshown : s.shown (.stop (some i)) = [] := by
            obtain ⟨id, processer_⟩ := timer
            obtain rfl : processer_ = none := hproc
            simp only [shown, htimer]
          rw [hshown, List.append_nil]
          refine h.unchanged htracked rfl rfl ?_
          show (s.history ++ _).filter _ = _
          rw [List.filter_append]
          exact List.append_nil _
      | @stop i p timer htimer hproc hid =>
          have htimer' : s.timers[i]? = some ⟨timer.id_, some p⟩ := by rw [htimer, ← hproc]
          have hunfired : .fired i ∉ s.history := hc timer htimer (by simp [hproc])
          refine h.stop htracked htimer' hunfired hid rfl rfl fun j id q hj => ?_
          have hset : (s.timers.set i { timer with processer_ := none })[j]? =
              some ⟨id, some q⟩ := hj
          obtain ⟨-, hnone⟩ | ⟨hne, hold⟩ := (Arrivals.getElem?_set_iff htimer).mp hset
          · cases hnone
          · exact ⟨hne, hold⟩
      | dangling htimer hproc hid => cases htracked.live

end Expiring

/-- In every run. -/
theorem expires_in_order (h : Reach (observed TimerSystem.step shown) Clocked (make, []) (s, os)) :
    s.ExpiryContract os := by
  have hexpiring : Expiring s os := h.invariant (I := fun w => Expiring w.1 w.2) expiring_make
    fun w e w' hw hc hs => by
      obtain ⟨hstep, hos⟩ := observed_eq_some.mp hs
      have hnext := hw.step hc hstep
      rw [← hos] at hnext
      exact hnext
  constructor
  case order => exact fun p => (hexpiring.keeps p).order
  case conserved => exact fun p => (hexpiring.keeps p).conserved
  case due => exact hexpiring.due
  case observed => exact hexpiring.observed
  case complete =>
    intro e p now t hpass hs hnone n hn
    obtain rfl := step_pass hexpiring.tracked hpass hs
    obtain ⟨front, hnodes, -⟩ := (hexpiring.keeps p).behind
    have hserved : (s.manager p).Served now front ((s.manager p).loop now (s.manager p).ahead) :=
      TimerManager.served_loop hnodes
    have hmanager : (s.ran p ((s.manager p).loop now (s.manager p).ahead)).manager p =
        ((s.manager p).loop now (s.manager p).ahead).1 := Function.update_self ..
    rw [hmanager] at hnone hn
    rw [← TimerManager.ahead_of_none hnone] at hn
    exact hserved.complete hnone n hn

/-- In the callback of timer 0 timer 1 is stopped, and a timer is created that is due at once: it
comes behind the sleeper of the same deadline. -/
def stopAndCreate : List TimerEvent :=
  [.create 0 5, .create 0 6, .sleep 0 7 9, .wakeup 0 7, .stop (some 1), .create 0 7,
    .callbackReturn 0, .callbackReturn 0]

theorem expires_in_order_stopAndCreate :
    ∃ s os, run (observed TimerSystem.step shown) Clocked (make, []) stopAndCreate = some (s, os) ∧
      s.history = [.fired 0, .stopped 1 true, .woke 9, .fired 2] ∧
      (expireds 0 os).map Node.id = [0, 2, 3] ∧ (stoppeds 0 os).map Node.id = [1] ∧
      s.ExpiryContract os :=
  ⟨_, _, rfl, rfl, rfl, rfl, expires_in_order (reach_of_run stopAndCreate rfl)⟩

end TimerSystem

end CppGo.Timers
