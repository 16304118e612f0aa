import CppGo.Lib.Observer
import CppGo.Scheduler.IdleLoop
import Mathlib.Algebra.Group.Int.Defs

/-!
# The channel of the interrupter

`Interrupter::interrupter` and `Interrupter::reset` over a socket that holds `C` bytes, next
to the loop of the Processer that they interrupt.  A history counts the calls of
`InterrupteWaitLoop`.
-/

namespace CppGo.Netio

open CppGo.Lib CppGo.Lib.Machine CppGo.Scheduling

/-- `sizeof(buf)` in `reset` -/
def resetBuffer : Nat := 1024

def recvReturns (bytes : Nat) : Int :=
  if bytes = 0 then -1 else min bytes resetBuffer

/-- The comparison of `reset`: the result is converted to `size_t`. -/
def resetGoesOn (bytes : Nat) : Bool :=
  decide (recvReturns bytes % 2 ^ 64 < resetBuffer)

/-- A call of `reset`: the bytes that were pending when it started, those it has taken, how
often it has called `recv`, and the bytes that have come in meanwhile. -/
structure Drain where
  begun : Nat
  consumed : Nat
  recvs : Nat
  sent : Nat
deriving DecidableEq, Repr

/-- `failed` says that the assertion of `interrupter` has failed.  `drain` is the call of
`reset` that runs, and `resets` are those that have returned. -/
structure Interrupter where
  loop : IdleLoop
  failed : Bool
  drain : Option Drain
  resets : List Drain

namespace Interrupter

def make (now : Int) : Interrupter :=
  { loop := .make now, failed := false, drain := none, resets := [] }

/-- `send` fails when `C` bytes are pending. -/
def interrupter (C : Nat) (s : Interrupter) : Option Interrupter :=
  if s.loop.bytes < C then
    (s.loop.step .interrupteWaitLoop).map fun l =>
      { s with loop := l, drain := s.drain.map fun d => { d with sent := d.sent + 1 } }
  else if 0 < s.loop.notifiers then
    some { s with
      loop := { s.loop with notifiers := s.loop.notifiers - 1 }
      failed := true }
  else none

def call (s : Interrupter) : Interrupter :=
  { s with drain := some { begun := s.loop.bytes, consumed := 0, recvs := 0, sent := 0 } }

def recv (s : Interrupter) (d : Drain) : Interrupter :=
  let l := s.loop.recv
  let d' := { d with
    consumed := d.consumed + min s.loop.bytes resetBuffer
    recvs := d.recvs + 1 }
  if l.pc = .reset then { s with loop := l, drain := some d' }
  else { s with loop := l, drain := none, resets := s.resets ++ [d'] }

def step (C : Nat) (s : Interrupter) : LoopEvent → Option Interrupter
  | .interrupteWaitLoop => s.interrupter C
  | .process =>
      if s.loop.pc = .reset then
        match s.drain with
        | none => some s.call
        | some d => some (s.recv d)
      else s.loop.process.map fun l => { s with loop := l }
  | a => (s.loop.step a).map fun l => { s with loop := l }

end Interrupter

/-- The calls of `InterrupteWaitLoop` since the last `recv` of `reset`, and since the last
call of `reset`. -/
structure Calls where
  since : Nat
  during : Nat
deriving DecidableEq, Repr

def Calls.next (s : Interrupter) (w : Calls) : LoopEvent → Calls
  | .interrupteWaitLoop => { since := w.since + 1, during := w.during + 1 }
  | .process =>
      if s.loop.pc = .reset then
        match s.drain with
        | none => { w with during := 0 }
        | some _ => { w with since := 0 }
      else w
  | _ => w

namespace Interrupter

/-- `InterrupteWaitLoop` is called at most `C` times between two `recv`, and at most as often
as `reset` has room in its buffer before it calls one; while the `n`-th call of `reset`
runs, at most `bound n` times. -/
def Ready (C : Nat) (bound : Nat → Nat) (s : Interrupter) (w : Calls) : LoopEvent → Prop
  | .interrupteWaitLoop =>
      w.since < C ∧ (s.drain.isSome → w.during < bound s.resets.length)
  | .process => s.loop.pc = .reset → w.since ≤ resetBuffer
  | _ => True

instance (C : Nat) (bound : Nat → Nat) (s : Interrupter) (w : Calls) :
    ∀ a, Decidable (s.Ready C bound w a)
  | .interrupteWaitLoop =>
      inferInstanceAs (Decidable (w.since < C ∧ (_ → w.during < bound s.resets.length)))
  | .process => inferInstanceAs (Decidable (s.loop.pc = .reset → w.since ≤ resetBuffer))
  | .epollReturn _ | .wakeupBySelfIo _ | .leave _ | .addTask _ | .stealNew _ | .stealRunnable _
  | .addTimer _ _ | .stopTimer _ | .notify _ | .tick _ => .isTrue trivial

/-- The assertion has not failed, the socket holds no more than it can, every call of `reset`
that has returned has consumed what was pending when it started, the one that runs can go
on, and no call has called `recv` more often than is said. -/
structure Sound (C : Nat) (bound : Nat → Nat) (s : Interrupter) : Prop where
  asserted : s.failed = false
  bounded : s.loop.bytes ≤ C
  drained : ∀ n d, s.resets[n]? = some d → d.begun ≤ d.consumed ∧ d.recvs ≤ bound n + 2
  running : ∀ d, s.drain = some d →
    d.recvs ≤ bound s.resets.length + 1 ∧ (s.step C .process).isSome

end Interrupter

/-! ## The loop around the channel -/

section Loop

variable {s t : IdleLoop} {a : LoopEvent}

theorem resetGoesOn_iff (bytes : Nat) :
    resetGoesOn bytes = true ↔ 0 < bytes ∧ bytes < resetBuffer := by
  unfold resetGoesOn recvReturns resetBuffer
  rw [decide_eq_true_iff]
  split_ifs <;> omega

theorem recv_pc (s : IdleLoop) : s.recv.pc = .reset ↔ resetGoesOn s.bytes = true := by
  rw [resetGoesOn_iff, resetBuffer]
  unfold IdleLoop.recv
  simp

theorem ran_pc (s : IdleLoop) (r : Timers.TimerManager × List Timers.Observation) :
    (s.ran r).pc ≠ .reset := by
  unfold IdleLoop.ran
  dsimp only
  split <;> exact LoopPc.noConfusion

/-- The loop itself touches the socket in `reset` only, and does not come there by itself. -/
theorem process_frame (h : s.process = some t) (hpc : s.pc ≠ .reset) :
    t.bytes = s.bytes ∧ t.pc ≠ .reset := by
  unfold IdleLoop.process at h
  cases hs : s.pc with
  | reset => exact absurd hs hpc
  | wait deadline =>
      rw [hs] at h
      cases h
  | wakeupTimers =>
      rw [hs] at h
      cases h
      exact ⟨rfl, ran_pc s _⟩
  | callback =>
      rw [hs] at h
      dsimp only at h
      split at h
      · split at h
        · cases h
          exact ⟨rfl, ran_pc s _⟩
        · cases h
      · cases h
  | addPop idle | duration | enter timeout | events | loop =>
      rw [hs] at h
      cases h
      exact ⟨rfl, LoopPc.noConfusion⟩
  | front | frontAgain | addEmpty idle | addPush idle elements =>
      rw [hs] at h
      cases h
      refine ⟨rfl, ?_⟩
      dsimp only
      split_ifs <;> exact LoopPc.noConfusion

/-- Of the other events only `epoll_wait` leads into `reset`, and only `InterrupteWaitLoop`
sends. -/
theorem step_frame (h : s.step a = some t) (hprocess : a ≠ .process)
    (hsend : a ≠ .interrupteWaitLoop) :
    t.bytes = s.bytes ∧ (s.pc = .reset → t.pc = .reset) := by
  cases a with
  | process => exact absurd rfl hprocess
  | interrupteWaitLoop => exact absurd rfl hsend
  | epollReturn interrupted =>
      simp only [IdleLoop.step, IdleLoop.epollReturn] at h
      split at h
      · rename_i deadline hpc
        have hbytes : t.bytes = s.bytes := by
          split_ifs at h <;> cases h <;> rfl
        exact ⟨hbytes, fun hreset => absurd (hpc.symm.trans hreset) LoopPc.noConfusion⟩
      · cases h
  | wakeupBySelfIo tk | leave tk =>
      simp only [IdleLoop.step, Option.ite_none_right_eq_some] at h
      obtain ⟨-, h⟩ := h
      cases h
      exact ⟨rfl, id⟩
  | addTask elements | stealNew n | stealRunnable n | addTimer timepoint element | stopTimer it
  | notify tk | tick d =>
      cases h
      exact ⟨rfl, id⟩

end Loop

/-! ## Every run -/

namespace Drain

/-- What holds of a call of `reset` while `bytes` are pending: before the first `recv` all is
there yet, and after it the bytes that were there have been taken. -/
structure Running (bytes : Nat) (d : Drain) : Prop where
  balance : d.consumed + bytes = d.begun + d.sent
  fits : d.begun ≤ resetBuffer
  ahead : d.recvs = 0 ∧ d.consumed = 0 ∨ d.begun ≤ d.consumed ∧ d.recvs + bytes ≤ d.sent + 1

variable {d : Drain} {bytes : Nat}

theorem running_begin (h : bytes ≤ resetBuffer) :
    Running bytes { begun := bytes, consumed := 0, recvs := 0, sent := 0 } :=
  ⟨Nat.zero_add _, h, .inl ⟨rfl, rfl⟩⟩

theorem Running.send (h : d.Running bytes) :
    Running (bytes + 1) { d with sent := d.sent + 1 } := by
  have hbalance := h.balance
  refine ⟨?_, h.fits, ?_⟩
  · dsimp only
    omega
  · obtain ⟨hrecvs, hconsumed⟩ | ⟨hbegun, hrecvs⟩ := h.ahead
    · exact .inl ⟨hrecvs, hconsumed⟩
    · refine .inr ⟨hbegun, ?_⟩
      dsimp only
      omega

theorem Running.recvs_le (h : d.Running bytes) : d.recvs ≤ d.sent + 1 := by
  obtain ⟨hrecvs, -⟩ | ⟨-, hrecvs⟩ := h.ahead <;> omega

theorem Running.recv (h : d.Running bytes) (hpos : 0 < bytes) :
    Running 0 { d with consumed := d.consumed + bytes, recvs := d.recvs + 1 } := by
  have hbalance := h.balance
  refine ⟨?_, h.fits, .inr ?_⟩
  · dsimp only
    omega
  · dsimp only
    obtain ⟨hrecvs, hconsumed⟩ | ⟨hbegun, hrecvs⟩ := h.ahead <;> omega

/-- The last `recv` finds the socket empty, or takes a whole buffer. -/
theorem Running.last (h : d.Running bytes) :
    d.begun ≤ d.consumed + min bytes resetBuffer ∧ d.recvs + 1 ≤ d.sent + 2 := by
  have hbalance := h.balance
  have hfits := h.fits
  obtain ⟨hrecvs, hconsumed⟩ | ⟨hbegun, hrecvs⟩ := h.ahead <;> omega

end Drain

namespace Interrupter

variable {C : Nat} {bound : Nat → Nat} {s t : Interrupter} {w : Calls} {a : LoopEvent}
  {now : Int}

inductive Outcome (C : Nat) (s : Interrupter) (w : Calls) (t : Interrupter) (a : LoopEvent) : Prop
  /-- `bytes` and the call of `reset` stay as they are. -/
  | elsewhere (l : IdleLoop) (ht : t = { s with loop := l }) (hbytes : l.bytes = s.loop.bytes)
      (hpc : s.drain.isSome → l.pc = .reset) (hnext : w.next s a = w)
  | sent (l : IdleLoop) (ha : a = .interrupteWaitLoop) (hbytes : l.bytes = s.loop.bytes + 1)
      (hpc : l.pc = s.loop.pc)
      (ht : t = { s with
        loop := l
        drain := s.drain.map fun d => { d with sent := d.sent + 1 } })
      (hnext : w.next s a = { since := w.since + 1, during := w.during + 1 })
  | called (ha : a = .process) (hpc : s.loop.pc = .reset) (ht : t = s.call)
      (hnext : w.next s a = { w with during := 0 })
  | received (d : Drain) (ha : a = .process) (hpc : s.loop.pc = .reset) (hdrain : s.drain = some d)
      (ht : t = s.recv d) (hnext : w.next s a = { w with since := 0 })

theorem step_cases (hroom : a = .interrupteWaitLoop → s.loop.bytes < C)
    (hpc : s.drain.isSome → s.loop.pc = .reset) (h : s.step C a = some t) :
    Outcome C s w t a := by
  by_cases hsend : a = .interrupteWaitLoop
  · subst hsend
    simp only [step, interrupter, if_pos (hroom rfl), IdleLoop.step, Option.map_eq_some_iff,
      Option.ite_none_right_eq_some] at h
    obtain ⟨l, ⟨-, hl⟩, rfl⟩ := h
    apply Outcome.sent l rfl ?_ ?_ rfl rfl
    all_goals rw [← Option.some.inj hl]
  by_cases hprocess : a = .process
  · subst hprocess
    simp only [step] at h
    split_ifs at h with hreset
    · cases hdrain : s.drain with
      | none =>
          rw [hdrain] at h
          cases h
          exact .called rfl hreset rfl (by simp [Calls.next, hreset, hdrain])
      | some d =>
          rw [hdrain] at h
          cases h
          exact .received d rfl hreset hdrain rfl (by simp [Calls.next, hreset, hdrain])
    · obtain ⟨l, hl, rfl⟩ := Option.map_eq_some_iff.mp h
      exact .elsewhere l rfl (process_frame hl hreset).1 (fun hsome => absurd (hpc hsome) hreset)
        (by simp [Calls.next, hreset])
  · have h : (s.loop.step a).map (fun l => { s with loop := l }) = some t := by
      cases a with
      | process => exact absurd rfl hprocess
      | interrupteWaitLoop => exact absurd rfl hsend
      | _ => exact h
    have hnext : w.next s a = w := by
      cases a with
      | process => exact absurd rfl hprocess
      | interrupteWaitLoop => exact absurd rfl hsend
      | _ => rfl
    obtain ⟨l, hl, rfl⟩ := Option.map_eq_some_iff.mp h
    obtain ⟨hbytes, hreset⟩ := step_frame hl hprocess hsend
    exact .elsewhere l rfl hbytes (fun hsome => hreset (hpc hsome)) hnext

/-- The socket holds a byte for each call since the last `recv`, the loop is in `reset` while
a call of it runs, and that call is where its counters say. -/
structure Inv (C : Nat) (bound : Nat → Nat) (s : Interrupter) (w : Calls) : Prop where
  asserted : s.failed = false
  counted : s.loop.bytes = w.since
  bounded : w.since ≤ C
  drained : ∀ n d, s.resets[n]? = some d → d.begun ≤ d.consumed ∧ d.recvs ≤ bound n + 2
  running : ∀ d, s.drain = some d →
    d.Running s.loop.bytes ∧ d.sent = w.during ∧ w.during ≤ bound s.resets.length
  inReset : s.drain.isSome → s.loop.pc = .reset

theorem Inv.make (C : Nat) (bound : Nat → Nat) (now : Int) :
    (make now).Inv C bound { since := 0, during := 0 } :=
  ⟨rfl, rfl, Nat.zero_le C, nofun, nofun, nofun⟩

theorem Inv.received {d : Drain} (h : s.Inv C bound w) (hdrain : s.drain = some d)
    (hfits : w.since ≤ resetBuffer) : (s.recv d).Inv C bound { w with since := 0 } := by
  obtain ⟨hrunning, hsent, hbound⟩ := h.running d hdrain
  have hmin : min s.loop.bytes resetBuffer = s.loop.bytes := by
    rw [h.counted]
    exact Nat.min_eq_left hfits
  have hempty : s.loop.recv.bytes = 0 := by
    show s.loop.bytes - min s.loop.bytes resetBuffer = 0
    rw [hmin, Nat.sub_self]
  unfold recv
  dsimp only
  split_ifs with hreset
  · obtain ⟨hpos, -⟩ := (resetGoesOn_iff _).mp ((recv_pc _).mp hreset)
    refine ⟨h.asserted, hempty, Nat.zero_le C, h.drained, ?_, fun _ => hreset⟩
    rintro d' hd'
    cases hd'
    dsimp only
    rw [hempty, hmin]
    exact ⟨hrunning.recv hpos, hsent, hbound⟩
  · refine ⟨h.asserted, hempty, Nat.zero_le C, ?_, nofun, nofun⟩
    intro n d' hd'
    rw [List.getElem?_append] at hd'
    split_ifs at hd' with hn
    · exact h.drained n d' hd'
    · -- the call that has just returned
      obtain ⟨hlt, hd'⟩ := List.getElem?_eq_some_iff.mp hd'
      rw [List.length_singleton] at hlt
      obtain rfl : n = s.resets.length := by omega
      rw [List.getElem_singleton] at hd'
      obtain ⟨hconsumed, hrecvs⟩ := hrunning.last
      rw [← hd']
      exact ⟨hconsumed, by dsimp only; omega⟩

theorem Inv.step (h : s.Inv C bound w) (hready : s.Ready C bound w a)
    (hstep : s.step C a = some t) : t.Inv C bound (w.next s a) := by
  have hroom : a = .interrupteWaitLoop → s.loop.bytes < C := by
    rintro rfl
    rw [h.counted]
    exact hready.1
  cases step_cases (w := w) hroom h.inReset hstep with
  | elsewhere l ht hbytes hpc hnext =>
      subst ht
      rw [hnext]
      refine ⟨h.asserted, hbytes.trans h.counted, h.bounded, h.drained, ?_, hpc⟩
      rw [hbytes]
      exact h.running
  | sent l ha hbytes hpc ht hnext =>
      subst ht ha
      obtain ⟨hlt, hduring⟩ := hready
      rw [hnext]
      refine ⟨h.asserted, ?_, hlt, h.drained, ?_, ?_⟩
      · rw [hbytes, h.counted]
      · rintro d' hd'
        obtain ⟨d, hd, rfl⟩ := Option.map_eq_some_iff.mp hd'
        obtain ⟨hrunning, hsent, -⟩ := h.running d hd
        rw [hbytes]
        exact ⟨hrunning.send, congrArg (· + 1) hsent, hduring (by rw [hd]; rfl)⟩
      · rw [hpc, Option.isSome_map]
        exact h.inReset
  | called ha hpc ht hnext =>
      subst ht ha
      rw [hnext]
      refine ⟨h.asserted, h.counted, h.bounded, h.drained, ?_, fun _ => hpc⟩
      rintro d hd
      cases hd
      exact ⟨Drain.running_begin (h.counted.trans_le (hready hpc)), rfl, Nat.zero_le _⟩
  | received d ha hpc hdrain ht hnext =>
      subst ht ha
      rw [hnext]
      exact h.received hdrain (hready hpc)

theorem process_isSome (hpc : s.loop.pc = .reset) : (s.step C .process).isSome := by
  simp only [Interrupter.step, if_pos hpc]
  cases s.drain <;> rfl

theorem Inv.sound (h : s.Inv C bound w) : s.Sound C bound := by
  refine ⟨h.asserted, h.counted.trans_le h.bounded, h.drained, fun d hd => ?_⟩
  obtain ⟨hrunning, hsent, hbound⟩ := h.running d hd
  have hrecvs := hrunning.recvs_le
  exact ⟨by omega, process_isSome (h.inReset (by rw [hd]; rfl))⟩

/-- The socket of the interrupter never fills up and is always drained, as long as
`InterrupteWaitLoop` is not called too often. -/
theorem sound_of_reach
    (h : Reach (recorded (Interrupter.step C) fun s w => w.next s)
      (fun v a => v.1.Ready C bound v.2 a) (make now, { since := 0, during := 0 }) (s, w)) :
    s.Sound C bound := by
  have hinv : s.Inv C bound w := by
    refine h.invariant (I := fun v => v.1.Inv C bound v.2) (Inv.make C bound now) ?_
    rintro ⟨s, w⟩ a ⟨t, w'⟩ hs hc hstep
    obtain ⟨hstep', rfl⟩ := recorded_eq_some.mp hstep
    exact Inv.step hs hc hstep'
  exact hinv.sound

/-- A task runs while two others are woken, and `C` is 1. -/
def secondByte : List LoopEvent :=
  [.notify 1, .interrupteWaitLoop, .process, .notify 2, .interrupteWaitLoop]

/-- A task runs that another thread wakes 1025 times. -/
def longPass : List LoopEvent :=
  [.notify 1, .interrupteWaitLoop, .process, .leave 1] ++
    List.flatten (.replicate 1024 [.notify 1, .interrupteWaitLoop, .leave 1])

def drainOnce : List LoopEvent :=
  List.flatten [.replicate 6 .process, [.epollReturn true], .replicate 2 .process]

def passing (bytes : Nat) : Interrupter :=
  { make 0 with loop := { IdleLoop.make 0 with bytes := bytes, edge := true, pc := .loop } }

/-- Wake-ups while a task runs only fill the socket. -/
theorem run_wakeups {n bytes : Nat} (hroom : bytes + n ≤ C) :
    run (Interrupter.step C) Free (passing bytes)
        (List.flatten (.replicate n [.notify 1, .interrupteWaitLoop, .leave 1])) =
      some (passing (bytes + n)) := by
  induction n generalizing bytes with
  | zero => rfl
  | succ n ih =>
      have hlt : bytes < C := by omega
      rw [List.replicate_succ, List.flatten_cons, run_append]
      refine ⟨passing (bytes + 1), ?_, ?_⟩
      · simp [run, Free, Interrupter.step, interrupter, IdleLoop.step, passing, hlt]
        exact ⟨rfl, rfl⟩
      · rw [ih (by omega), Nat.add_assoc, Nat.add_comm 1 n]

/-- The second byte finds the socket full, and where there is room for all of 1025 bytes,
`reset` returns with one of them left. -/
theorem channel_overruns :
    (∃ s, run (Interrupter.step 1) Free (make 0) secondByte = some s ∧ s.failed = true) ∧
      ∃ s, run (Interrupter.step 2048) Free (make 0) (longPass ++ drainOnce) = some s ∧
        s.failed = false ∧ s.loop.bytes = 1 ∧
        s.resets = [{ begun := 1025, consumed := 1024, recvs := 1, sent := 0 }] := by
  refine ⟨Machine.exists_of_run (by decide +kernel), ?_⟩
  have hpass : run (Interrupter.step 2048) Free (make 0) longPass = some (passing 1025) := by
    rw [longPass, run_append]
    exact ⟨passing 1, rfl, run_wakeups (by decide)⟩
  obtain ⟨s, hrun, hs⟩ : ∃ s, run (Interrupter.step 2048) Free (passing 1025) drainOnce = some s ∧
      s.failed = false ∧ s.loop.bytes = 1 ∧
      s.resets = [{ begun := 1025, consumed := 1024, recvs := 1, sent := 0 }] :=
    Machine.exists_of_run (by decide +kernel)
  exact ⟨s, run_append.mpr ⟨passing 1025, hpass, hrun⟩, hs⟩

/-- A call that a byte interrupts while `epoll_wait` runs, and a second byte in `reset`. -/
def interrupted : List LoopEvent :=
  List.flatten
    [.replicate 4 .process, [.notify 1, .interrupteWaitLoop, .epollReturn true],
     .replicate 2 .process, [.notify 2, .interrupteWaitLoop], .replicate 2 .process]

theorem sound_interrupted :
    ∃ v, run (recorded (Interrupter.step 1) fun s w => w.next s)
        (fun v a => v.1.Ready 1 (fun _ => 1) v.2 a) (make 0, { since := 0, during := 0 })
        interrupted = some v ∧
      v.1.resets = [{ begun := 1, consumed := 2, recvs := 3, sent := 1 }] ∧
      v.1.Sound 1 fun _ => 1 := by
  have hrun : ∃ v, run (recorded (Interrupter.step 1) fun s w => w.next s)
        (fun v a => v.1.Ready 1 (fun _ => 1) v.2 a) (make 0, { since := 0, during := 0 })
        interrupted = some v ∧
      v.1.resets = [{ begun := 1, consumed := 2, recvs := 3, sent := 1 }] :=
    Machine.exists_of_run (by decide +kernel)
  obtain ⟨v, hv, hresets⟩ := hrun
  exact ⟨v, hv, hresets, sound_of_reach (reach_of_run _ hv)⟩

end Interrupter

end CppGo.Netio
