import CppGo.Lib.Multimap
import Mathlib.Logic.Function.Basic

/-!
# `TimerManager`

`timer/timer.h` and `timer/timer.cpp`: the map of the timers and sleepers of one
Processer, and the handles with which a timer is stopped.  `WakeupTimers` releases
`map_lock_` around every callback, so a pass is a sequence of sections: from its
start, or the return of a callback, to the next callback or the end of the pass.
-/

namespace CppGo.Timers

open CppGo.Lib

/-- `timer_type_` with the data of its kind: the callback of a timer, here the number of
the timer, or the task that sleeps. -/
inductive TimerElement
  | timerTimeout (timer_call_back_ : Nat)
  | taskTimeout (task_ : Nat)
deriving DecidableEq, Repr

/-- What a `TimerID` points to. -/
structure Timer where
  id_ : Nat
  processer_ : Option Nat
deriving DecidableEq, Repr

/-- What can be seen from outside: a callback starts, a sleeper is woken, and
`StopTimer` returns. -/
inductive Observation
  | fired (timer : Nat)
  | woke (task : Nat)
  | stopped (timer : Nat) (ret : Bool)
deriving DecidableEq, Repr

/-- A pass of `WakeupTimers` that is in the callback of the element `it`. -/
structure Pass where
  now : Int
  it : Nat
deriving DecidableEq, Repr

structure TimerManager where
  timer_map_ : Multimap Int TimerElement
  pass : Option Pass

/-- How the loop of `WakeupTimers` is left: to run a callback, or for good. -/
inductive LoopExit
  | callback (it : Nat) (timer_call_back_ : Nat)
  | finished (it : Option Nat)

/-- The loop of `WakeupTimers` over the nodes from its iterator on: the sleepers it wakes
and how it is left. -/
def scan (now : Int) : List (Node Int TimerElement) → List Nat × LoopExit
  | [] => ([], .finished none)
  | n :: rest =>
      if n.key > now then ([], .finished (some n.id))
      else match n.value with
        | .timerTimeout timer => ([], .callback n.id timer)
        | .taskTimeout task => (task :: (scan now rest).1, (scan now rest).2)

namespace TimerManager

def make : TimerManager := { timer_map_ := .empty, pass := none }

/-- `AddTimer` and `AddSleeper`. -/
def insert (m : TimerManager) (timepoint : Int) (element : TimerElement) : TimerManager :=
  { m with timer_map_ := m.timer_map_.insert timepoint element }

def erase (m : TimerManager) (it : Nat) : TimerManager :=
  { m with timer_map_ := m.timer_map_.erase it }

def loop (m : TimerManager) (now : Int) (nodes : List (Node Int TimerElement)) :
    TimerManager × List Observation :=
  match scan now nodes with
  | (tasks, .callback it timer) =>
      ({ m with pass := some { now := now, it := it } }, tasks.map .woke ++ [.fired timer])
  | (tasks, .finished it) =>
      ({ timer_map_ := m.timer_map_.eraseBefore it, pass := none }, tasks.map .woke)

def wakeupTimers (m : TimerManager) (now : Int) : TimerManager × List Observation :=
  if m.timer_map_.nodes.isEmpty then (m, []) else m.loop now m.timer_map_.nodes

/-- The elements that no pass has come to: all of them, or those behind the running
callback's. -/
def ahead (m : TimerManager) : List (Node Int TimerElement) :=
  match m.pass with
  | none => m.timer_map_.nodes
  | some pass => m.timer_map_.after pass.it

end TimerManager

/-! ## What one section does -/

theorem scan_callback {now : Int} {l : List (Node Int TimerElement)} {tasks : List Nat}
    {it timer : Nat} (h : scan now l = (tasks, .callback it timer)) :
    ∃ pre n post, l = pre ++ n :: post ∧ n.id = it ∧ n.value = .timerTimeout timer := by
  induction l generalizing tasks with
  | nil => simp [scan] at h
  | cons n l ih =>
      unfold scan at h
      split at h
      · simp at h
      · split at h
        · rename_i hvalue
          simp only [Prod.mk.injEq, LoopExit.callback.injEq] at h
          exact ⟨[], n, l, rfl, h.2.1, by rw [hvalue, h.2.2]⟩
        · simp only [Prod.mk.injEq] at h
          obtain ⟨pre, k, post, hl, hid, hvalue⟩ := ih (Prod.ext rfl h.2)
          exact ⟨n :: pre, k, post, by rw [hl]; rfl, hid, hvalue⟩

theorem scan_finished {now : Int} {l : List (Node Int TimerElement)} {tasks : List Nat}
    {it : Nat} (h : scan now l = (tasks, .finished (some it))) :
    ∃ pre n post, l = pre ++ n :: post ∧ n.id = it := by
  induction l generalizing tasks with
  | nil => simp [scan] at h
  | cons n l ih =>
      unfold scan at h
      split at h
      · simp only [Prod.mk.injEq, LoopExit.finished.injEq, Option.some.injEq] at h
        exact ⟨[], n, l, rfl, h.2⟩
      · split at h
        · simp at h
        · simp only [Prod.mk.injEq] at h
          obtain ⟨pre, k, post, hl, hid⟩ := ih (Prod.ext rfl h.2)
          exact ⟨n :: pre, k, post, by rw [hl]; rfl, hid⟩

namespace TimerManager

variable {m : TimerManager} {now : Int} {l : List (Node Int TimerElement)}

/-- A section wakes sleepers and then starts the callback of an element ahead of it, or
ends the pass. -/
inductive Section (m : TimerManager) (now : Int) (l : List (Node Int TimerElement)) :
    TimerManager × List Observation → Prop
  | callback {tasks : List Nat} {n : Node Int TimerElement} {timer : Nat} (hn : n ∈ l)
      (hvalue : n.value = .timerTimeout timer) (hahead : m.timer_map_.after n.id ⊆ l) :
      Section m now l
        ({ m with pass := some { now := now, it := n.id } }, tasks.map .woke ++ [.fired timer])
  | finished {tasks : List Nat} {it : Option Nat} (hahead : m.timer_map_.starting it ⊆ l) :
      Section m now l
        ({ timer_map_ := m.timer_map_.eraseBefore it, pass := none }, tasks.map .woke)

theorem loop_section (hl : l <:+ m.timer_map_.nodes) : Section m now l (m.loop now l) := by
  obtain ⟨front, hfront⟩ := hl
  unfold loop
  split
  · rename_i tasks it timer hscan
    obtain ⟨pre, n, post, rfl, rfl, hvalue⟩ := scan_callback hscan
    apply Section.callback (n := n) (by simp) hvalue
    have hsplit : m.timer_map_.nodes = (front ++ pre) ++ n :: post := by
      rw [← hfront, List.append_assoc]
    have hstart : m.timer_map_.starting (some n.id) = n :: post :=
      Multimap.starting_of_split hsplit
    rw [Multimap.after, hstart]
    intro k hk
    exact List.mem_append_right _ (List.mem_cons_of_mem _ hk)
  · rename_i tasks it hscan
    apply Section.finished
    cases it with
    | none => exact List.nil_subset _
    | some it =>
        obtain ⟨pre, n, post, rfl, rfl⟩ := scan_finished hscan
        have hsplit : m.timer_map_.nodes = (front ++ pre) ++ n :: post := by
          rw [← hfront, List.append_assoc]
        rw [Multimap.starting_of_split hsplit]
        exact List.subset_append_right _ _

end TimerManager

end CppGo.Timers
