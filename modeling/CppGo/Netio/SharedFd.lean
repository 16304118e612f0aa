import CppGo.Lib.Machine
import CppGo.Lib.SharedPtr
import Mathlib.Logic.Function.Basic

/-!
# `NetFD`s that share a socket

`netio/inner_net/net_fd.cpp`: construction, assignment and destruction of `NetFD`s,
`inner_socket` and `inner_close`, with the descriptors that the kernel has given out.
A `NetFD` points to a `shared_ptr` of its own, so that `share_fd` is the cell this refers to.
-/

namespace CppGo.Netio.SharedFd

open CppGo.Lib

structure PollFd where
  fd : Int
  events : BitVec 16
  revents : BitVec 16
deriving DecidableEq, Repr

/-- Ghost: `origin` is the cell of the `NetFD` that this one has last been assigned or
copied from, or its own one if it has been constructed. -/
structure NetFD where
  osfd : PollFd
  owner_task : Option Nat
  share_fd : Option Nat
  origin : Option Nat
deriving DecidableEq, Repr

/-- What a descriptor has been opened for: a `NetFD` that is not shared, or the `NetFD`s of
a cell. -/
inductive Socket
  | plain
  | shared (b : Nat)
deriving DecidableEq, Repr

def Socket.isShared : Socket → Bool
  | .plain => false
  | .shared _ => true

/-- `netFd` holds the objects by age, with `none` for those that are destroyed.  Ghost:
`closed` lists the cells whose socket a call of `close_socket` has closed. -/
structure NetFds where
  netFd : List (Option NetFD)
  share_fd : SharedPtrs Int
  kernel : Int → Option Socket
  closed : List Nat
  ndebug : Bool
  aborted : Bool

inductive FdEvent
  /-- `NetFD(share)` -/
  | construct (share : Bool)
  /-- `inner_socket`, in a task or not, with what `socket` and `inner_setnonblocking`
  return -/
  | innerSocket (share inTask : Bool) (fd : Int) (nonblocking : Bool)
  /-- `NetFD(const NetFD& rfd)` -/
  | copy (task rfd : Nat)
  /-- `operator=` -/
  | assign (task n rfd : Nat)
  | innerClose (n : Nat)
  /-- `~NetFD` -/
  | destroy (n : Nat)
  /-- `Poll` sets or clears `owner_task`. -/
  | setOwner (n : Nat) (task : Option Nat)
deriving DecidableEq, Repr

namespace NetFds

def make (ndebug : Bool) : NetFds :=
  { netFd := []
    share_fd := .empty
    kernel := fun _ => none
    closed := []
    ndebug := ndebug
    aborted := false }

def object (s : NetFds) (n : Nat) : Option NetFD := s.netFd[n]?.join

def setNetFd (s : NetFds) (n : Nat) (f : Option NetFD) : NetFds :=
  { s with netFd := s.netFd.set n f }

def push (s : NetFds) (f : NetFD) : NetFds := { s with netFd := s.netFd ++ [some f] }

/-- `assert(0)` -/
def fail (s : NetFds) : NetFds := { s with aborted := !s.ndebug }

def closeSocket (s : NetFds) (fd : Int) : NetFds :=
  match s.kernel fd with
  | none => s
  | some .plain => { s with kernel := Function.update s.kernel fd none }
  | some (.shared b) =>
      { s with kernel := Function.update s.kernel fd none, closed := s.closed ++ [b] }

/-- A `shared_ptr` lets its cell go; `close_share_fd` is the deleter. -/
def drop (s : NetFds) : Option Nat → NetFds
  | none => s
  | some b =>
      let s := { s with share_fd := s.share_fd.release b }
      if s.share_fd.use_count b = 0 then s.closeSocket ((s.share_fd.value b).getD (-1)) else s

def retain (s : NetFds) (b : Nat) : NetFds := { s with share_fd := s.share_fd.retain b }

def construct (s : NetFds) (share : Bool) : NetFds :=
  let b := if share then some s.share_fd.cells.length else none
  let s := if share then { s with share_fd := s.share_fd.make (-1) } else s
  s.push { osfd := ⟨-1, 0, 0⟩, owner_task := none, share_fd := b, origin := b }

/-- `!rfd.share_fd`, and `rfd` is used by another task. -/
def foreignTask (task : Nat) (rfd : NetFD) : Bool :=
  rfd.share_fd.isNone && rfd.owner_task != none && rfd.owner_task != some task

/-- It copies after the failed assertion, too. -/
def copy (s : NetFds) (task : Nat) (rfd : NetFD) : NetFds :=
  match rfd.share_fd with
  | none => (if foreignTask task rfd then s.fail else s).push
      { osfd := rfd.osfd, owner_task := rfd.owner_task, share_fd := none, origin := none }
  | some b => (s.retain b).push
      { osfd := rfd.osfd, owner_task := none, share_fd := some b, origin := rfd.origin }

def assign (s : NetFds) (task n : Nat) (f rfd : NetFD) : NetFds :=
  match rfd.share_fd with
  | none =>
      if foreignTask task rfd then
        (s.setNetFd n (some { f with osfd := { f.osfd with fd := -1 }, origin := none })).fail
      else
        s.setNetFd n (some { f with
          osfd := rfd.osfd, owner_task := rfd.owner_task, origin := none })
  | some b =>
      ((s.retain b).setNetFd n (some
        { osfd := rfd.osfd, owner_task := none, share_fd := some b, origin := rfd.origin })).drop
        f.share_fd

def setFd (s : NetFds) (n : Nat) (f : NetFD) (fd : Int) : NetFds :=
  s.setNetFd n (some { f with osfd := { f.osfd with fd := fd } })

def innerClose (s : NetFds) (n : Nat) (f : NetFD) : NetFds :=
  match f.share_fd with
  | none => (s.closeSocket f.osfd.fd).setFd n f (-1)
  | some _ => s

def destroy (s : NetFds) (n : Nat) (f : NetFD) : NetFds :=
  (s.setNetFd n none).drop f.share_fd

def innerSocket (s : NetFds) (share inTask : Bool) (fd : Int) (nonblocking : Bool) : NetFds :=
  let n := s.netFd.length
  let s := s.construct share
  match s.object n with
  | none => s
  | some f =>
      if inTask = false then (s.setFd n f (-1)).fail
      else if fd < 0 then (s.setFd n f (-1)).fail
      else
        let socket := (f.share_fd.map Socket.shared).getD .plain
        let f := { f with osfd := { f.osfd with fd := fd } }
        let s := { s with kernel := Function.update s.kernel fd (some socket) }.setNetFd n (some f)
        let s := if nonblocking then s else s.innerClose n f
        match f.share_fd with
        | none => s
        | some b => { s with share_fd := s.share_fd.store b fd }

def unused (s : NetFds) (fd : Int) : Bool := decide (fd < 0) || (s.kernel fd).isNone

def step (s : NetFds) (a : FdEvent) : Option NetFds :=
  if s.aborted then none
  else match a with
  | .construct share => some (s.construct share)
  | .innerSocket share inTask fd nonblocking =>
      if s.unused fd then some (s.innerSocket share inTask fd nonblocking) else none
  | .copy task rfd => (s.object rfd).map fun r => s.copy task r
  | .assign task n rfd => (s.object n).bind fun f => (s.object rfd).map fun r => s.assign task n f r
  | .innerClose n => (s.object n).map fun f => s.innerClose n f
  | .destroy n => (s.object n).map fun f => s.destroy n f
  | .setOwner n task =>
      (s.object n).map fun f => s.setNetFd n (some { f with owner_task := task })

end NetFds

end CppGo.Netio.SharedFd
