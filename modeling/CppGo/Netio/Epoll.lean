import CppGo.Lib.Flags
import CppGo.Lib.Machine
import CppGo.Lib.Multimap
import Mathlib.Data.List.AList
import Mathlib.Logic.Function.Basic

/-!
# `EpollIoWait`

`netio/inner_net/epoll_io_wait.cpp`: the `EpollIoWait` of one Processer with the
kernel's epoll set, the `NetFD`s and their timers.  `Poll`, `WaitLoop` and the
callbacks of the timers all run on the thread of the Processer, one after another.
-/

namespace CppGo.Netio

open CppGo.Lib

def POLLIN : BitVec 32 := 0x1
def POLLPRI : BitVec 32 := 0x2
def POLLOUT : BitVec 32 := 0x4
def POLLERR : BitVec 32 := 0x8
def POLLHUP : BitVec 32 := 0x10
def POLLNVAL : BitVec 32 := 0x20
def POLLRDHUP : BitVec 32 := 0x2000
def EPOLLET : BitVec 32 := 0x80000000

def POLL_EXCEPTION : BitVec 32 := POLLERR ||| POLLHUP ||| POLLRDHUP ||| POLLNVAL

/-- `events` and `revents` of a `pollfd` are of type `short`. -/
def toShort (events : BitVec 32) : BitVec 16 := events.setWidth 16

def ofShort (events : BitVec 16) : BitVec 32 := events.signExtend 32

/-- `NetFD::timer`: not set, or set and its callback still to run or run. -/
inductive PollTimer
  | none
  | armed
  | fired
deriving DecidableEq, Repr

structure NetFD where
  fd : Int
  events : BitVec 16
  revents : BitVec 16
  shared : Bool
  owner_task : Option Nat
  timer : PollTimer

structure EpollEvent where
  fd : Int
  events : BitVec 32
deriving DecidableEq, Repr

inductive Assertion
  /-- `WaitLoop`: `itr != fd_map.end()` -/
  | reported
  /-- `PollsetTimeoutDel`: `itr != fd_map.end()` -/
  | timed
  /-- `PollsetModify`: `events > 0` -/
  | positive
  /-- `assert(0)` after a failed `epoll_ctl` -/
  | control
deriving DecidableEq, Repr

/-- `epoll` is the kernel's set, and `pushed` the tasks that have been put into a run
queue.  Ghosts: `failed` lists the conditions of assertions that were false, and `eexist`
says that an `EPOLL_CTL_ADD` has failed. -/
structure EpollIoWait where
  epoll : AList fun _ : Int => BitVec 32
  fd_map : Multimap Int Nat
  netFd : Nat → NetFD
  evtlist_cnt : Int
  event_list_size : Nat
  rlim_max : Nat
  notify_socket : Int
  pushed : List Nat
  ndebug : Bool
  failed : List Assertion
  eexist : Bool

structure Sockets where
  fd : Nat → Int
  shared : Nat → Bool
  notify_socket : Int
  distinct : ∀ n, fd n ≠ notify_socket

inductive PollEvent
  | poll (n task : Nat) (events : BitVec 32) (timeout : Int)
  | waitLoop (reports : List EpollEvent)
  /-- the callback of the timer of a `NetFD` -/
  | timeout (n : Nat)
  /-- `Poll` returns -/
  | pollReturn (n : Nat)

namespace EpollIoWait

def make (k : Sockets) (epoll_event_size rlim_max : Nat) (ndebug : Bool) : EpollIoWait :=
  { epoll := AList.singleton k.notify_socket (POLLIN ||| EPOLLET)
    fd_map := .empty
    netFd := fun n =>
      { fd := k.fd n, events := 0, revents := 0, shared := k.shared n, owner_task := none,
        timer := .none }
    evtlist_cnt := 0
    event_list_size := epoll_event_size
    rlim_max := rlim_max
    notify_socket := k.notify_socket
    pushed := []
    ndebug := ndebug
    failed := []
    eexist := false }

def setNetFd (s : EpollIoWait) (n : Nat) (f : NetFD) : EpollIoWait :=
  { s with netFd := Function.update s.netFd n f }

def events (s : EpollIoWait) (n : Nat) : BitVec 32 := ofShort (s.netFd n).events

def entries (s : EpollIoWait) (fd : Int) : List (Node Int Nat) :=
  s.fd_map.nodes.filter fun n => n.key = fd

def halted (s : EpollIoWait) : Bool := !s.ndebug && !s.failed.isEmpty

def assert (s : EpollIoWait) (a : Assertion) (cond : Bool) : EpollIoWait :=
  if cond then s else { s with failed := s.failed ++ [a] }

def removeNetFd2TaskRunnable (s : EpollIoWait) (n : Nat) : EpollIoWait :=
  { s with pushed := s.pushed ++ (s.netFd n).owner_task.toList }

/-- `EPOLL_CTL_DEL`, and the counter. -/
def ctlDel (s : EpollIoWait) (fd : Int) : EpollIoWait :=
  if fd ∈ s.epoll then { s with epoll := s.epoll.erase fd, evtlist_cnt := s.evtlist_cnt - 1 }
  else
    let s := s.assert .control false
    if s.halted then s else { s with evtlist_cnt := s.evtlist_cnt - 1 }

def ctlMod (s : EpollIoWait) (fd : Int) (events : BitVec 32) : EpollIoWait :=
  if fd ∈ s.epoll then { s with epoll := s.epoll.insert fd events }
  else s.assert .control false

/-- What `WaitLoop` and `PollsetTimeoutDel` do with the events that are left. -/
def settle (s : EpollIoWait) (fd : Int) (modEvents : BitVec 32) : EpollIoWait :=
  if modEvents = 0 then s.ctlDel fd else s.ctlMod fd modEvents

/-! ## `WaitLoop` -/

def wants (comeEvents events : BitVec 32) : Bool :=
  comeEvents &&& events != 0 || comeEvents &&& POLL_EXCEPTION != 0

def wake (s : EpollIoWait) (comeEvents : BitVec 32) (itr : Node Int Nat) : EpollIoWait :=
  let f := s.netFd itr.value
  let revents := toShort ((ofShort f.events &&& comeEvents) ||| (comeEvents &&& POLL_EXCEPTION))
  let s := (s.setNetFd itr.value { f with revents := revents }).removeNetFd2TaskRunnable itr.value
  let s := { s with fd_map := s.fd_map.erase itr.id }
  s.setNetFd itr.value { s.netFd itr.value with timer := .none }

def serve (comeEvents : BitVec 32) :
    List (Node Int Nat) → EpollIoWait → BitVec 32 → EpollIoWait × BitVec 32
  | [], s, modEvents => (s, modEvents)
  | itr :: rest, s, modEvents =>
      let events := s.events itr.value
      let s := if wants comeEvents events then s.wake comeEvents itr else s
      serve comeEvents rest s (modEvents ||| events)

def report (s : EpollIoWait) (e : EpollEvent) : EpollIoWait :=
  if s.halted then s
  else if e.fd = s.notify_socket then s
  else
    let s := s.assert .reported !(s.entries e.fd).isEmpty
    if s.halted then s
    else
      let r := serve e.events (s.entries e.fd) s 0
      r.1.settle e.fd (r.2 &&& ~~~e.events)

def waitLoop (s : EpollIoWait) (reports : List EpollEvent) : EpollIoWait :=
  reports.foldl report s

/-! ## Timeouts -/

/-- The loop of `PollsetTimeoutDel`. -/
def dropNetFd (n : Nat) :
    List (Node Int Nat) → EpollIoWait → BitVec 32 → EpollIoWait × BitVec 32
  | [], s, modEvents => (s, modEvents)
  | itr :: rest, s, modEvents =>
      if itr.value = n then dropNetFd n rest { s with fd_map := s.fd_map.erase itr.id } modEvents
      else dropNetFd n rest s (modEvents ||| s.events itr.value)

def pollsetTimeoutDel (s : EpollIoWait) (n : Nat) : EpollIoWait :=
  let fd := (s.netFd n).fd
  let s := s.assert .timed !(s.entries fd).isEmpty
  if s.halted then s
  else
    let r := dropNetFd n (s.entries fd) s 0
    r.1.settle fd r.2

/-- The callback that `CreateTimer` installs. -/
def timeoutCallback (s : EpollIoWait) (n : Nat) : EpollIoWait :=
  let s := (s.setNetFd n { s.netFd n with timer := .fired }).pollsetTimeoutDel n
  if s.halted then s else s.removeNetFd2TaskRunnable n

/-! ## `Poll` -/

def setEvents (s : EpollIoWait) (n : Nat) (events : BitVec 32) : EpollIoWait :=
  s.setNetFd n { s.netFd n with events := toShort events }

def resize (s : EpollIoWait) : EpollIoWait :=
  if s.evtlist_cnt > s.event_list_size ∧ s.evtlist_cnt * 2 ≤ s.rlim_max then
    { s with event_list_size := (s.evtlist_cnt * 2).toNat }
  else s

def pollsetAddHelp (s : EpollIoWait) (n : Nat) (events : BitVec 32) : EpollIoWait × Bool :=
  let s := s.setEvents n events
  let fd := (s.netFd n).fd
  if fd ∈ s.epoll then ({ s with eexist := true }, false)
  else
    ({ s with epoll := s.epoll.insert fd events, evtlist_cnt := s.evtlist_cnt + 1 }.resize, true)

def pollsetModify (s : EpollIoWait) (fd : Int) (events : BitVec 32) : EpollIoWait :=
  let s := s.assert .positive (0 < events.toInt)
  if s.halted then s else s.ctlMod fd events

def oldEvents (s : EpollIoWait) (itrs : List (Node Int Nat)) : BitVec 32 :=
  itrs.foldl (fun old itr => old ||| s.events itr.value) 0

def pollsetAdd (s : EpollIoWait) (n : Nat) (events : BitVec 32) : EpollIoWait × Bool :=
  let f := s.netFd n
  if f.fd < 0 ∨ events = 0 ∨ events &&& ~~~(POLLIN ||| POLLOUT ||| POLLPRI) ≠ 0 then (s, false)
  else
    let events := events ||| EPOLLET
    if f.shared = false ∨ s.entries f.fd = [] then s.pollsetAddHelp n events
    else
      let s := s.setEvents n events
      let old := s.oldEvents (s.entries f.fd)
      if old ≠ events then (s.pollsetModify f.fd (old ||| events), true) else (s, true)

/-- `Poll` up to the switch. -/
def poll (s : EpollIoWait) (n task : Nat) (events : BitVec 32) (timeout : Int) : EpollIoWait :=
  let r := s.pollsetAdd n events
  let s := r.1
  if r.2 = false ∨ s.halted then s
  else
    { s with fd_map := s.fd_map.insert (s.netFd n).fd n }.setNetFd n
      { s.netFd n with
        owner_task := some task
        timer := if timeout > 0 then .armed else (s.netFd n).timer }

def mapped (s : EpollIoWait) (n : Nat) : Bool := s.fd_map.nodes.any fun itr => itr.value = n

def step (s : EpollIoWait) (a : PollEvent) : Option EpollIoWait :=
  if s.halted then none
  else match a with
  | .poll n task events timeout =>
      if (s.netFd n).owner_task = none then some (s.poll n task events timeout) else none
  | .waitLoop reports =>
      if reports.length ≤ s.event_list_size then some (s.waitLoop reports) else none
  | .timeout n => if (s.netFd n).timer = .armed then some (s.timeoutCallback n) else none
  | .pollReturn n =>
      if (s.netFd n).owner_task ≠ none ∧ s.mapped n = false then
        some (s.setNetFd n { s.netFd n with owner_task := none, timer := .none })
      else none

end EpollIoWait

end CppGo.Netio
