import CppGo.Netio.TimedPoll

/-!
# `SelectIoWait`

`netio/inner_net/select_io_wait.cpp` for Unix: the `SelectIoWait` of one Processer, the
`NetFD`s, and the tasks that are inside of `Poll`.
-/

namespace CppGo.Netio

open CppGo.Lib

def FD_SETSIZE : Int := 1024

inductive Ending
  /-- a failed assertion -/
  | assertion
  /-- `exit(0)` in `CheckRepeatNetFD` -/
  | repeated
deriving DecidableEq, Repr

structure PollCall where
  netFd : Nat
  timeout : Int
deriving DecidableEq, Repr

/-- The bits that `select` leaves set. -/
structure Ready where
  read : List Int
  write : List Int
  exception : List Int
deriving DecidableEq, Repr

/-- `calls` says in which call of `Poll` a task is, and `runnableQueue_` holds the tasks
that `RemoveNetFD2TaskRunnable` has woken. -/
structure SelectIoWait where
  fd_read_set : Int → Bool
  fd_write_set : Int → Bool
  fd_exception_set : Int → Bool
  maxfd : Int
  fd_map : Multimap Int Nat
  netFd : Nat → NetFD
  calls : Nat → Option PollCall
  runnableQueue_ : List Nat
  notify_socket : Int
  ndebug : Bool
  ended : Option Ending

inductive SelectEvent
  | poll (n task : Nat) (events : BitVec 32) (timeout : Int)
  | waitLoop (ready : Ready)
  /-- `select` fails -/
  | selectError (errno : Nat)
  /-- the callback of the timer of a `NetFD` -/
  | timeout (n : Nat)
  /-- the task is switched in and `Poll` returns -/
  | pollReturn (task : Nat)
deriving DecidableEq, Repr

namespace SelectIoWait

/-- `InitModule` -/
def make (k : Sockets) (ndebug : Bool) : SelectIoWait :=
  { fd_read_set := Function.update (fun _ => false) k.notify_socket true
    fd_write_set := fun _ => false
    fd_exception_set := fun _ => false
    maxfd := if 0 < k.notify_socket then k.notify_socket else 0
    fd_map := .empty
    netFd := fun n =>
      { fd := k.fd n, events := 0, revents := 0, shared := k.shared n, owner_task := none
        timer := .none }
    calls := fun _ => none
    runnableQueue_ := []
    notify_socket := k.notify_socket
    ndebug := ndebug
    ended := none }

def setNetFd (s : SelectIoWait) (n : Nat) (f : NetFD) : SelectIoWait :=
  { s with netFd := Function.update s.netFd n f }

def events (s : SelectIoWait) (n : Nat) : BitVec 32 := ofShort (s.netFd n).events

def entries (s : SelectIoWait) (fd : Int) : List (Node Int Nat) :=
  s.fd_map.nodes.filter fun n => n.key = fd

def assert (s : SelectIoWait) (cond : Bool) : SelectIoWait :=
  if cond || s.ndebug then s else { s with ended := some .assertion }

def removeNetFd2TaskRunnable (s : SelectIoWait) (n : Nat) : SelectIoWait :=
  { s with runnableQueue_ := s.runnableQueue_ ++ (s.netFd n).owner_task.toList }

/-- `FD_SET` or `FD_CLR`, where the test says so. -/
def change (set : Int → Bool) (cond : Bool) (fd : Int) (bit : Bool) : Int → Bool :=
  if cond then Function.update set fd bit else set

def pollsetDel (s : SelectIoWait) (n : Nat) (events : BitVec 32) : SelectIoWait :=
  let f := s.netFd n
  if f.events = 0 then s
  else
    { s with
      fd_read_set := change s.fd_read_set (events &&& POLLIN != 0 || events == 0) f.fd false
      fd_write_set := change s.fd_write_set (events &&& POLLOUT != 0 || events == 0) f.fd false
      fd_exception_set := change s.fd_exception_set (events &&& POLLPRI != 0) f.fd false
      netFd := Function.update s.netFd n
        { f with events := toShort (ofShort f.events &&& ~~~events) } }

/-! ## `WaitLoop` -/

def reventsOf (s : SelectIoWait) (ready : Ready) (n : Nat) : BitVec 32 :=
  let f := s.netFd n
  let events := ofShort f.events
  let revents := ofShort f.revents
  let revents := if events &&& POLLIN ≠ 0 ∧ f.fd ∈ ready.read then revents ||| POLLIN else revents
  let revents :=
    if events &&& POLLOUT ≠ 0 ∧ f.fd ∈ ready.write then revents ||| POLLOUT else revents
  if events &&& POLLPRI ≠ 0 ∧ f.fd ∈ ready.exception then revents ||| POLLPRI else revents

def wake (s : SelectIoWait) (itr : Node Int Nat) : SelectIoWait :=
  let s := { s with fd_map := s.fd_map.erase itr.id }
  let s := s.pollsetDel itr.value (ofShort (s.netFd itr.value).revents)
  let s := s.removeNetFd2TaskRunnable itr.value
  s.setNetFd itr.value { s.netFd itr.value with timer := .none }

/-- One round of the loop over `fd_map`. -/
def visit (ready : Ready) (s : SelectIoWait) (itr : Node Int Nat) : SelectIoWait :=
  let n := itr.value
  let revents := s.reventsOf ready n
  let s := s.setNetFd n { s.netFd n with revents := toShort revents }
  if revents ≠ 0 ∧ revents &&& s.events n ≠ 0 then s.wake itr else s

def waitLoop (s : SelectIoWait) (ready : Ready) : SelectIoWait :=
  if ready.read.length + ready.write.length + ready.exception.length = 0 then s
  else s.fd_map.nodes.foldl (visit ready) s

def registered (s : SelectIoWait) (ready : Ready) : Bool :=
  ready.read.all s.fd_read_set && ready.write.all s.fd_write_set &&
    ready.exception.all s.fd_exception_set

/-! ## Timeouts -/

/-- The loop of `PollsetTimeoutDel`. -/
def dropNetFd (n : Nat) :
    List (Node Int Nat) → SelectIoWait → BitVec 32 → SelectIoWait × BitVec 32
  | [], s, modEvents => (s, modEvents)
  | itr :: rest, s, modEvents =>
      if itr.value = n then dropNetFd n rest { s with fd_map := s.fd_map.erase itr.id } modEvents
      else dropNetFd n rest s (modEvents ||| s.events itr.value)

def pollsetTimeoutDel (s : SelectIoWait) (n : Nat) : SelectIoWait :=
  let fd := (s.netFd n).fd
  let s := s.assert !(s.entries fd).isEmpty
  if s.ended.isSome then s
  else
    let r := dropNetFd n (s.entries fd) s 0
    if r.2 &&& r.1.events n = 0 then r.1.pollsetDel n (r.1.events n) else r.1

/-- The callback that `CreateTimer` installs. -/
def timeoutCallback (s : SelectIoWait) (n : Nat) : SelectIoWait :=
  let s := (s.setNetFd n { s.netFd n with timer := .fired }).pollsetTimeoutDel n
  if s.ended.isSome then s else s.removeNetFd2TaskRunnable n

/-! ## `Poll` -/

def pollsetAdd (s : SelectIoWait) (n : Nat) (events : BitVec 32) : SelectIoWait :=
  let f := s.netFd n
  let all := ofShort f.events ||| events
  { s with
    fd_read_set := change s.fd_read_set (all &&& POLLIN != 0) f.fd true
    fd_write_set := change s.fd_write_set (all &&& POLLOUT != 0) f.fd true
    fd_exception_set := change s.fd_exception_set (all &&& POLLPRI != 0) f.fd true
    maxfd := if s.maxfd < f.fd then f.fd else s.maxfd
    netFd := Function.update s.netFd n { f with events := toShort all } }

/-- `PollsetAdd` returns -1 with `EINVAL`. -/
def invalid (s : SelectIoWait) (n : Nat) (events : BitVec 32) : Bool :=
  let fd := (s.netFd n).fd
  decide (fd < 0) || events == 0 || events &&& ~~~(POLLIN ||| POLLOUT ||| POLLPRI) != 0 ||
    decide (FD_SETSIZE ≤ fd)

/-- `Poll` up to the switch. -/
def poll (s : SelectIoWait) (n task : Nat) (events : BitVec 32) (timeout : Int) :
    SelectIoWait :=
  if (s.netFd n).owner_task ≠ none then
    { s with ended := some (if s.ndebug then .repeated else .assertion) }
  else if s.invalid n events then s
  else
    let s := s.pollsetAdd n events
    { s with
      fd_map := s.fd_map.insert (s.netFd n).fd n
      calls := Function.update s.calls task (some { netFd := n, timeout := timeout }) }.setNetFd n
      { s.netFd n with
        owner_task := some task
        timer := if timeout > 0 then .armed else (s.netFd n).timer }

/-- `Poll` after the switch. -/
def pollReturn (s : SelectIoWait) (task : Nat) (c : PollCall) : SelectIoWait :=
  let f := { s.netFd c.netFd with revents := 0 }
  let s :=
    { s with
      runnableQueue_ := s.runnableQueue_.erase task
      calls := Function.update s.calls task none }
  if c.timeout > 0 ∧ f.timer ≠ .none then s.setNetFd c.netFd { f with timer := .none }
  else s.setNetFd c.netFd { f with owner_task := none }

def step (s : SelectIoWait) (a : SelectEvent) : Option SelectIoWait :=
  if s.ended.isSome then none
  else match a with
  | .poll n task events timeout =>
      if s.calls task = none then some (s.poll n task events timeout) else none
  | .waitLoop ready => if s.registered ready = true then some (s.waitLoop ready) else none
  | .selectError errno => some (s.assert (errno != EBADF))
  | .timeout n => if (s.netFd n).timer = .armed then some (s.timeoutCallback n) else none
  | .pollReturn task => match s.calls task with
    | none => none
    | some c => if task ∈ s.runnableQueue_ then some (s.pollReturn task c) else none

/-! ## `NetFD`s come and go -/

/-- `NetFD(share)` and the descriptor that `inner_socket` or `inner_accept` puts into it. -/
def construct (s : SelectIoWait) (n : Nat) (fd : Int) (share : Bool) : SelectIoWait :=
  s.setNetFd n
    { fd := fd, events := 0, revents := 0, shared := share, owner_task := none, timer := .none }

/-- `!rfd.share_fd`, and `rfd` is used by another task. -/
def foreignTask (s : SelectIoWait) (task m : Nat) : Bool :=
  !(s.netFd m).shared && (s.netFd m).owner_task != none && (s.netFd m).owner_task != some task

/-- `NetFD(const NetFD& rfd)`: the new `n` after `m`.  It copies after the failed assertion,
too. -/
def copy (s : SelectIoWait) (task n m : Nat) : SelectIoWait :=
  let rfd := s.netFd m
  (s.assert !(s.foreignTask task m)).setNetFd n
    { fd := rfd.fd, events := rfd.events, revents := rfd.revents, shared := rfd.shared
      owner_task := if rfd.shared then none else rfd.owner_task
      timer := .none }

/-- `operator=`: `n` after `m`.  `share_fd` of an `rfd` that is not shared is not taken
over. -/
def assign (s : SelectIoWait) (task n m : Nat) : SelectIoWait :=
  let f := s.netFd n
  let rfd := s.netFd m
  if s.foreignTask task m then (s.setNetFd n { f with fd := -1 }).assert false
  else s.setNetFd n
    { f with
      fd := rfd.fd
      events := rfd.events
      revents := rfd.revents
      shared := f.shared || rfd.shared
      owner_task := if rfd.shared then none else rfd.owner_task }

def innerClose (s : SelectIoWait) (n : Nat) : SelectIoWait :=
  if (s.netFd n).shared then s else s.setNetFd n { s.netFd n with fd := -1 }

end SelectIoWait

inductive NetFdEvent
  | select (a : SelectEvent)
  | construct (n : Nat) (fd : Int) (share : Bool)
  | copy (task n m : Nat)
  | assign (task n m : Nat)
  | innerClose (n : Nat)
deriving DecidableEq, Repr

namespace SelectIoWait

def netFdStep (s : SelectIoWait) : NetFdEvent → Option SelectIoWait
  | .select a => s.step a
  | .construct n fd share => if s.ended.isSome then none else some (s.construct n fd share)
  | .copy task n m => if s.ended.isSome then none else some (s.copy task n m)
  | .assign task n m => if s.ended.isSome then none else some (s.assign task n m)
  | .innerClose n => if s.ended.isSome then none else some (s.innerClose n)

end SelectIoWait

end CppGo.Netio
