import CppGo.Lib.History
import CppGo.Lib.Machine
import CppGo.Timer.TimerManager

/-!
# Timer handles

Every Processer with its `TimerManager`, and the handles that `CreateMilliTimer` has
returned.  Between the sections of a pass, and so in every callback, anybody may create
and stop timers.
-/

namespace CppGo.Timers

open CppGo.Lib CppGo.Lib.Machine

/-- `fault` is set by the use of an iterator that is not valid. -/
structure TimerSystem where
  manager : Nat → TimerManager
  timers : List Timer
  history : List Observation
  fault : Bool

inductive TimerEvent
  | create (p : Nat) (timepoint : Int)
  /-- `AddSleeper` -/
  | sleep (p : Nat) (timepoint : Int) (task : Nat)
  /-- `WakeupTimers` up to its first callback -/
  | wakeup (p : Nat) (now : Int)
  /-- the callback returns and `WakeupTimers` goes on -/
  | callbackReturn (p : Nat)
  /-- `Scheduler::StopTimer`; the handle may have been reset -/
  | stop (id : Option Nat)
deriving DecidableEq, Repr

namespace TimerSystem

def make : TimerSystem :=
  { manager := fun _ => .make, timers := [], history := [], fault := false }

def setManager (s : TimerSystem) (p : Nat) (m : TimerManager) : TimerSystem :=
  { s with manager := Function.update s.manager p m }

def observe (s : TimerSystem) (os : List Observation) : TimerSystem :=
  { s with history := s.history ++ os }

/-- `CreateMilliTimer` on the Processer `p`, which computes the point in time. -/
def createMilliTimer (s : TimerSystem) (p : Nat) (timepoint : Int) : TimerSystem :=
  { s.setManager p ((s.manager p).insert timepoint (.timerTimeout s.timers.length)) with
    timers := s.timers ++ [{ id_ := (s.manager p).timer_map_.nextId, processer_ := some p }] }

/-- `StopTimer` with the handle `timer`, of number `i`. -/
def stopTimer (s : TimerSystem) (i : Nat) (timer : Timer) : TimerSystem :=
  match timer.processer_ with
  | none => s.observe [.stopped i false]
  | some p =>
      if (s.manager p).timer_map_.contains timer.id_ then
        { s.setManager p ((s.manager p).erase timer.id_) with
          timers := s.timers.set i { timer with processer_ := none } }.observe [.stopped i true]
      else { s with fault := true }

def ran (s : TimerSystem) (p : Nat) (r : TimerManager × List Observation) : TimerSystem :=
  (s.setManager p r.1).observe r.2

def stepLive (s : TimerSystem) : TimerEvent → Option TimerSystem
  | .create p timepoint => some (s.createMilliTimer p timepoint)
  | .sleep p timepoint task =>
      some (s.setManager p ((s.manager p).insert timepoint (.taskTimeout task)))
  | .wakeup p now =>
      if (s.manager p).pass = none then some (s.ran p ((s.manager p).wakeupTimers now)) else none
  | .callbackReturn p =>
      match (s.manager p).pass with
      | none => none
      | some pass =>
          if (s.manager p).timer_map_.contains pass.it then
            some (s.ran p ((s.manager p).loop pass.now ((s.manager p).timer_map_.after pass.it)))
          else some { s with fault := true }
  | .stop none => some s
  | .stop (some i) =>
      match s.timers[i]? with
      | none => none
      | some timer => some (s.stopTimer i timer)

/-- After the use of an invalid iterator nothing is known of the program. -/
def step (s : TimerSystem) (a : TimerEvent) : Option TimerSystem :=
  if s.fault then none else s.stepLive a

/-! ## What a step does -/

inductive Outcome (s : TimerSystem) : TimerEvent → TimerSystem → Prop
  | create (p : Nat) (timepoint : Int) :
      Outcome s (.create p timepoint) (s.createMilliTimer p timepoint)
  | sleep (p : Nat) (timepoint : Int) (task : Nat) :
      Outcome s (.sleep p timepoint task)
        (s.setManager p ((s.manager p).insert timepoint (.taskTimeout task)))
  /-- a pass that finds the map empty -/
  | idle (p : Nat) (now : Int) : Outcome s (.wakeup p now) (s.ran p (s.manager p, []))
  | begins {p : Nat} {now : Int} {r : TimerManager × List Observation}
      (hr : (s.manager p).Section now (s.manager p).ahead r) :
      Outcome s (.wakeup p now) (s.ran p r)
  | goesOn {p : Nat} {now : Int} {r : TimerManager × List Observation}
      (hr : (s.manager p).Section now (s.manager p).ahead r) :
      Outcome s (.callbackReturn p) (s.ran p r)
  | lost {p : Nat} {pass : Pass} (hpass : (s.manager p).pass = some pass)
      (hit : (s.manager p).timer_map_.contains pass.it = false) :
      Outcome s (.callbackReturn p) { s with fault := true }
  | noHandle : Outcome s (.stop none) s
  | stopLate {i : Nat} {timer : Timer} (htimer : s.timers[i]? = some timer)
      (hproc : timer.processer_ = none) :
      Outcome s (.stop (some i)) (s.observe [.stopped i false])
  | stop {i p : Nat} {timer : Timer} (htimer : s.timers[i]? = some timer)
      (hproc : timer.processer_ = some p)
      (hid : (s.manager p).timer_map_.contains timer.id_ = true) :
      Outcome s (.stop (some i))
        ({ s.setManager p ((s.manager p).erase timer.id_) with
          timers := s.timers.set i { timer with processer_ := none } }.observe [.stopped i true])
  | dangling {i p : Nat} {timer : Timer} (htimer : s.timers[i]? = some timer)
      (hproc : timer.processer_ = some p)
      (hid : (s.manager p).timer_map_.contains timer.id_ = false) :
      Outcome s (.stop (some i)) { s with fault := true }

theorem step_outcome {s s' : TimerSystem} {a : TimerEvent} (hs : s.step a = some s') :
    s.fault = false ∧ Outcome s a s' := by
  unfold step at hs
  split at hs
  · cases hs
  rename_i hlive
  refine ⟨by simpa using hlive, ?_⟩
  unfold stepLive at hs
  cases a with
  | create p timepoint =>
      cases hs
      exact .create p timepoint
  | sleep p timepoint task =>
      cases hs
      exact .sleep p timepoint task
  | wakeup p now =>
      simp only [Option.ite_none_right_eq_some, Option.some.injEq] at hs
      obtain ⟨hpass, rfl⟩ := hs
      unfold TimerManager.wakeupTimers
      split
      · exact .idle p now
      · apply Outcome.begins
        unfold TimerManager.ahead
        rw [hpass]
        exact TimerManager.loop_section (List.suffix_refl _)
  | callbackReturn p =>
      simp only at hs
      split at hs
      · cases hs
      rename_i pass hpass
      split at hs
      · cases hs
        refine @Outcome.goesOn _ p pass.now _ ?_
        unfold TimerManager.ahead
        rw [hpass]
        apply TimerManager.loop_section
        exact (List.tail_suffix _).trans (List.dropWhile_suffix _)
      · rename_i hit
        cases hs
        exact .lost hpass (by simpa using hit)
  | stop id =>
      cases id with
      | none =>
          cases hs
          exact .noHandle
      | some i =>
          simp only at hs
          split at hs
          · cases hs
          rename_i timer htimer
          cases hs
          unfold stopTimer
          split
          · rename_i hproc
            exact .stopLate htimer hproc
          · rename_i p hproc
            split
            · rename_i hid
              exact .stop htimer hproc hid
            · rename_i hid
              exact .dangling htimer hproc (by simpa using hid)

end TimerSystem

end CppGo.Timers
