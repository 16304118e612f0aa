import CppGo.Lib.Arrivals
import CppGo.Lib.Machine
import CppGo.Netio.Epoll

/-!
# Timed calls of `Poll`

A task that waits in `EpollIoWait::Poll` is woken by its Processer, in the loop of
`WaitLoop` or in the callback of its timer, and may be stolen and resumed by another
Processer as soon as it is in a run queue.  The body of the loop is four steps: set
`revents`, `RemoveNetFD2TaskRunnable`, `fd_map.erase` and `StopTimer`.
-/

namespace CppGo.Netio

open CppGo.Lib

def ETIME : Nat := 62
def EBADF : Nat := 9

inductive Place
  /-- outside of `Poll` -/
  | running
  | suspended
  /-- in a queue of a Processer -/
  | queued (p : Nat)
  /-- in the hands of the dispatcher -/
  | stolen
deriving DecidableEq, Repr

/-- The element of `CreateTimer` in the Processer's `timer_map_`. -/
inductive Expiry
  | none
  | armed
  | ran
  | stopped
deriving DecidableEq, Repr

/-- What `Poll` returns, with `errno`. -/
structure PollResult where
  ret : Int
  errno : Nat
deriving DecidableEq, Repr

structure Registration where
  netFd : Nat
  home : Nat
  timeout : Int
  timer : Expiry
  result : Option PollResult
deriving DecidableEq, Repr

/-- The `NetFD`, its task and the `fd_map` it is in; `owner` and `timer` are the calls of
`Poll` they belong to. -/
structure PolledFd where
  owner : Option Nat
  timer : Option Nat
  revents : BitVec 16
  mapped : Option Nat
  place : Place
deriving DecidableEq, Repr

/-- What the thread of a Processer is doing for a call `r` of `Poll`. -/
inductive ThreadPc
  /-- runs tasks, or is between two elements of a loop -/
  | idle
  /-- has set `revents`: `RemoveNetFD2TaskRunnable` comes next -/
  | found (r : Nat)
  /-- `fd_map.erase` comes next -/
  | pushed (r : Nat)
  /-- `StopTimer` comes next -/
  | erased (r : Nat)
  /-- in the callback of the timer: `RemoveNetFD2TaskRunnable` comes next -/
  | firing (r : Nat)
deriving DecidableEq, Repr

/-- `late` says that a Processer has used a `NetFD` for a call of `Poll` that had been
resumed. -/
structure PollSystem where
  calls : List Registration
  netFd : Nat → PolledFd
  pc : Nat → ThreadPc
  late : Bool

inductive PollStep
  /-- `Poll` up to the switch, on the Processer `p` -/
  | poll (p n : Nat) (timeout : Int)
  | setRevents (p n : Nat) (revents : BitVec 16)
  | push (p : Nat)
  | erase (p : Nat)
  | stopTimer (p : Nat)
  /-- the timer's callback up to `PollsetTimeoutDel` -/
  | fire (p r : Nat)
  | firePush (p : Nat)
  | steal (n : Nat)
  /-- a stolen task is added to the Processer `p` -/
  | addTask (p n : Nat)
  /-- the Processer `p` resumes the task, whose thread has this `errno` -/
  | resume (p n : Nat) (errno : Nat)
deriving DecidableEq, Repr

namespace PollSystem

def make : PollSystem :=
  { calls := []
    netFd := fun _ =>
      { owner := none, timer := none, revents := 0, mapped := none, place := .running }
    pc := fun _ => .idle
    late := false }

def setNetFd (s : PollSystem) (n : Nat) (f : PolledFd) : PollSystem :=
  { s with netFd := Function.update s.netFd n f }

def setPc (s : PollSystem) (p : Nat) (pc : ThreadPc) : PollSystem :=
  { s with pc := Function.update s.pc p pc }

def setCall (s : PollSystem) (r : Nat) (c : Registration) : PollSystem :=
  { s with calls := s.calls.set r c }

def use (s : PollSystem) (c : Registration) : PollSystem :=
  { s with late := s.late || c.result.isSome }

/-- `PollsetAdd` has succeeded: the `NetFD` is put into `fd_map`, the timer is created
and the task suspended. -/
def poll (s : PollSystem) (p n : Nat) (timeout : Int) : PollSystem :=
  let r := s.calls.length
  let c : Registration :=
    { netFd := n, home := p, timeout := timeout
      timer := if timeout > 0 then .armed else .none
      result := none }
  { s with calls := s.calls ++ [c] }.setNetFd n
    { s.netFd n with
      owner := some r
      timer := if timeout > 0 then some r else (s.netFd n).timer
      mapped := some p
      place := .suspended }

def removeNetFd2TaskRunnable (s : PollSystem) (c : Registration) : PollSystem :=
  (s.use c).setNetFd c.netFd { s.netFd c.netFd with place := .queued c.home }

/-- `InnerIoWait::StopTimer` -/
def stopTimer (s : PollSystem) (c : Registration) : PollSystem :=
  let s := s.use c
  match (s.netFd c.netFd).timer with
  | none => s
  | some r =>
      let s := match s.calls[r]? with
        | some t => if t.timer = Expiry.armed then s.setCall r { t with timer := .stopped } else s
        | none => s
      s.setNetFd c.netFd { s.netFd c.netFd with timer := none }

/-- The callback of the timer of the call `c`, of number `r`, up to its push. -/
def fire (s : PollSystem) (r : Nat) (c : Registration) : PollSystem :=
  ((s.use c).setCall r { c with timer := .ran }).setNetFd c.netFd
    { s.netFd c.netFd with mapped := none }

/-- What `Poll` returns after the switch. -/
def pollResult (c : Registration) (f : PolledFd) (errno : Nat) : PollResult :=
  if c.timeout > 0 ∧ f.timer ≠ none then { ret := -1, errno := ETIME }
  else if ofShort f.revents &&& POLLNVAL ≠ 0 then { ret := -1, errno := EBADF }
  else if ofShort f.revents &&& POLL_EXCEPTION ≠ 0 then { ret := -1, errno := errno }
  else { ret := 0, errno := errno }

def resume (s : PollSystem) (r : Nat) (c : Registration) (errno : Nat) : PollSystem :=
  let f := s.netFd c.netFd
  (s.setCall r { c with result := some (pollResult c f errno) }).setNetFd c.netFd
    { f with
      owner := none
      timer := if c.timeout > 0 then none else f.timer
      place := .running }

def step (s : PollSystem) : PollStep → Option PollSystem
  | .poll p n timeout =>
      if s.pc p = .idle ∧ (s.netFd n).owner = none then some (s.poll p n timeout) else none
  | .setRevents p n revents =>
      if s.pc p = .idle ∧ (s.netFd n).mapped = some p then
        match (s.netFd n).owner with
        | none => none
        | some r => some ((s.setNetFd n { s.netFd n with revents := revents }).setPc p (.found r))
      else none
  | .push p => match s.pc p with
    | .found r => (s.calls[r]?).map fun c => (s.removeNetFd2TaskRunnable c).setPc p (.pushed r)
    | _ => none
  | .erase p => match s.pc p with
    | .pushed r => (s.calls[r]?).map fun c =>
        (s.setNetFd c.netFd { s.netFd c.netFd with mapped := none }).setPc p (.erased r)
    | _ => none
  | .stopTimer p => match s.pc p with
    | .erased r => (s.calls[r]?).map fun c => (s.stopTimer c).setPc p .idle
    | _ => none
  | .fire p r =>
      match s.calls[r]? with
      | none => none
      | some c =>
          if s.pc p = .idle ∧ c.home = p ∧ c.timer = .armed then
            some ((s.fire r c).setPc p (.firing r))
          else none
  | .firePush p => match s.pc p with
    | .firing r => (s.calls[r]?).map fun c => (s.removeNetFd2TaskRunnable c).setPc p .idle
    | _ => none
  | .steal n => match (s.netFd n).place with
    | .queued _ => some (s.setNetFd n { s.netFd n with place := .stolen })
    | _ => none
  | .addTask p n =>
      if (s.netFd n).place = .stolen then
        some (s.setNetFd n { s.netFd n with place := .queued p })
      else none
  | .resume p n errno =>
      if s.pc p = .idle ∧ (s.netFd n).place = .queued p then
        match (s.netFd n).owner with
        | none => none
        | some r => (s.calls[r]?).map fun c => s.resume r c errno
      else none

end PollSystem

end CppGo.Netio
