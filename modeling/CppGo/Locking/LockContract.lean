import CppGo.Locking.AcquisitionOrder
import Mathlib.Data.Fintype.EquivFin

/-!
# The spin locks do not deadlock

For any threads, coroutines, channels, mutexes, timers and Processers, and any interleaving of
their calls.
-/

namespace CppGo.Locking

open CppGo.Lib CppGo.Lib.Machine

variable {ι κ : Type*} [DecidableEq ι] [DecidableEq κ] {s : State ι κ}

theorem ordered (h : Reach step Free LockMachine.State.make s) : s.Ordered LFLock.rank :=
  LockMachine.ordered_of_reach Call.takes ThreadCall.takes h

/-- No set of threads wait for locks that they hold, and a coroutine switches out without a
lock. -/
theorem deadlock_free (h : Reach step Free LockMachine.State.make s) :
    (∀ T : Set ι, ¬s.Deadlocked T) ∧ ∀ t c l, s.SwitchesOut t c → ¬s.Holds t l := by
  have ho := ordered h
  constructor
  · exact ho.not_deadlocked
  · intro t c l hswitch
    exact ho.not_holds hswitch

/-- Task 0 on thread 0 waits to push into channel 0, thread 1 stops timer 7 of Processer 3, and
thread 2 creates one there. -/
def threeThreads : List (Event Nat Nat) :=
  .start 0 (.process 0) :: [0, 1, 0, 0, 0, 0, 0, 0, 0, 0, 0, 0, 0, 1, 0].map (.step 0) ++
  .swapIn 0 0 :: .call 0 (.push 0 (-1)) ::
    [0, 0, 0, 1, 0, 1, 0, 0, 0, 0, 0, 0, 0, 0, 0, 0, 0, 0, 0, 0].map (.step 0) ++
  .start 1 (.stopTimer 7) :: [0, 0, 0, 0, 0, 3, 0].map (.step 1) ++
  .start 2 .createMilliTimer :: [3, 0, 0].map (.step 2)

theorem deadlock_free_threeThreads : ∃ s, run step Free LockMachine.State.make threeThreads = some s ∧
    (s.on 0 = some 0 ∧ (s.frame (.inl 1)).held = [.timer 7] ∧ (s.frame (.inl 2)).held = [.map 3]) ∧
    (∀ T : Set Nat, ¬s.Deadlocked T) ∧ ∀ t c l, s.SwitchesOut t c → ¬s.Holds t l := by
  have hview : (run step Free LockMachine.State.make threeThreads).map
      (fun s => (s.on 0, (s.frame (.inl 1)).held, (s.frame (.inl 2)).held)) =
      some (some 0, [.timer 7], [.map 3]) := by decide +kernel
  obtain ⟨s, hrun, hs⟩ := Option.map_eq_some_iff.mp hview
  simp only [Prod.mk.injEq] at hs
  exact ⟨s, hrun, hs, deadlock_free (reach_of_run threeThreads hrun)⟩

/-- As long as a lock is taken, a thread that holds one can go on. -/
theorem progress {l : LFLock} (h : Reach step Free LockMachine.State.make s)
    (hflag : s.flag l = true) :
    ∃ t, (∃ m, s.Holds t m) ∧ ∃ s', step s (.step t 0) = some s' :=
  (ordered h).progress Call.code ThreadCall.code hflag

end CppGo.Locking
