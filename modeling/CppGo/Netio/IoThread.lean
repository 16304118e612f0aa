import CppGo.Lib.Machine
import CppGo.Netio.IoCalls
import CppGo.Netio.TimedPoll

/-!
# Timed I/O calls on one thread

The coroutines of one thread, each of which may be in one of the receiving or sending
calls.  The thread has one `errno`.  A coroutine runs until it is suspended in `Poll`
or leaves the thread to another one.
-/

namespace CppGo.Netio

open CppGo.Lib

inductive TimedIo
  | innerRecv (sockfd : Int) (buf count : Nat) (flags : Int)
  | innerRecvfrom (sockfd : Int) (buf len : Nat) (flags : Int) (src_addr addrlen : Nat)
  | innerSend (sockfd : Int) (buf count : Nat) (flags : Int)
  | innerSendto (sockfd : Int) (buf len : Nat) (flags : Int) (dest_addr addrlen : Nat)
  | stReadv (sockfd : Int) (iov : List Iovec)
  | stRead (sockfd : Int) (buf count : Nat)
deriving DecidableEq, Repr

namespace TimedIo

def client (timeout : Int) : TimedIo → (σ : Type) × Client σ Request Reply Exit
  | .innerRecv fd buf count flags => ⟨_, Netio.innerRecv fd buf count flags timeout⟩
  | .innerRecvfrom fd buf len flags addr addrlen =>
      ⟨_, Netio.innerRecvfrom fd buf len flags addr addrlen timeout⟩
  | .innerSend fd buf count flags => ⟨_, Netio.innerSend fd buf count flags timeout⟩
  | .innerSendto fd buf len flags addr addrlen =>
      ⟨_, Netio.innerSendto fd buf len flags addr addrlen timeout⟩
  | .stReadv fd iov => ⟨_, Netio.stReadv fd iov timeout⟩
  | .stRead fd buf count => ⟨_, Netio.stRead fd buf count timeout⟩

def receives : TimedIo → Bool
  | .innerSend _ _ _ _ | .innerSendto _ _ _ _ _ _ => false
  | _ => true

/-- A call that returns 0 when nothing is ready and `timeout == 0`. -/
def zeroes : TimedIo → Bool
  | .innerRecv _ _ _ _ | .stReadv _ _ | .stRead _ _ _ => true
  | _ => false

end TimedIo

structure Flight where
  call : TimedIo
  timeout : Int
  pc : (call.client timeout).1

namespace Flight

def ask (f : Flight) : Request := (f.call.client f.timeout).2.ask f.pc

def hear (f : Flight) (r : Reply) : Flight ⊕ Exit :=
  ((f.call.client f.timeout).2.hear f.pc r).map (fun pc => { f with pc := pc }) id

def start (call : TimedIo) (timeout : Int) : Flight ⊕ Exit :=
  (call.client timeout).2.start.map (fun pc => { call := call, timeout := timeout, pc := pc }) id

end Flight

/-- A call that has returned, with the `errno` that the caller sees.  Ghosts: what the last
system call or `Poll` has returned to it, whether that was `Poll`, and whether the timer of
that `Poll` had expired. -/
structure IoResult where
  call : TimedIo
  timeout : Int
  exit : Exit
  errno : Nat
  lastRet : Int
  polled : Bool
  expired : Bool
deriving DecidableEq, Repr

/-- What `Poll` replies after the switch: `timer` says that the `NetFD` still has one. -/
def pollReply (timeout : Int) (timer : Bool) (revents : BitVec 16) (errno : Nat) : Reply :=
  let r := PollSystem.pollResult
    { netFd := 0, home := 0, timeout := timeout, timer := .none, result := none }
    { owner := none, timer := if timer then some 0 else none, revents := revents
      mapped := none, place := .running } errno
  { ret := r.ret, errno := r.errno, value := 0 }

/-- `active` is the coroutine that runs, and `waiting` says who is suspended in `Poll`. -/
structure IoThread where
  errno : Nat
  active : Option Nat
  flight : Nat → Option Flight
  waiting : Nat → Bool
  results : List IoResult

inductive IoStep
  /-- a coroutine outside of the calls is scheduled -/
  | switchIn (i : Nat)
  | switchOut (i : Nat)
  /-- any other code of a coroutine leaves this `errno` -/
  | setErrno (i : Nat) (errno : Nat)
  | call (i : Nat) (call : TimedIo) (timeout : Int)
  /-- a system call returns -/
  | reply (i : Nat) (ret : Int) (errno : Nat)
  /-- `PollsetAdd` fails -/
  | refuse (i : Nat) (errno : Nat)
  /-- `Poll` switches to another coroutine -/
  | suspend (i : Nat)
  /-- `Poll` goes on after an event -/
  | event (i : Nat) (revents : BitVec 16)
  /-- `Poll` goes on after its timer -/
  | expire (i : Nat) (revents : BitVec 16)
deriving DecidableEq, Repr

namespace IoThread

def make (errno : Nat) : IoThread :=
  { errno := errno, active := none, flight := fun _ => none, waiting := fun _ => false
    results := [] }

def proceed (s : IoThread) (i : Nat) (f : Flight) (r : Reply) (polled expired : Bool) :
    IoThread :=
  match f.hear r with
  | .inl f' =>
      { s with
        errno := r.errno, active := some i
        flight := Function.update s.flight i (some f')
        waiting := Function.update s.waiting i false }
  | .inr e =>
      { s with
        errno := r.errno, active := some i
        flight := Function.update s.flight i none
        waiting := Function.update s.waiting i false
        results := s.results ++
          [{ call := f.call, timeout := f.timeout, exit := e, errno := r.errno, lastRet := r.ret
             polled := polled, expired := expired }] }

/-- A system call that does not fail leaves `errno` alone. -/
def errnoAfter (s : IoThread) (ret : Int) (errno : Nat) : Nat :=
  if ret < 0 then errno else s.errno

def step (s : IoThread) : IoStep → Option IoThread
  | .switchIn i =>
      if s.active = none ∧ s.flight i = none then some { s with active := some i } else none
  | .switchOut i =>
      if s.active = some i ∧ s.flight i = none then some { s with active := none } else none
  | .setErrno i errno =>
      if s.active = some i ∧ s.flight i = none then some { s with errno := errno } else none
  | .call i call timeout =>
      if s.active = some i ∧ s.flight i = none then
        match Flight.start call timeout with
        | .inl f => some { s with flight := Function.update s.flight i (some f) }
        | .inr _ => none
      else none
  | .reply i ret errno => match s.flight i with
    | none => none
    | some f =>
        let r : Reply := { ret := ret, errno := s.errnoAfter ret errno, value := 0 }
        if s.active = some i ∧ f.ask.isPoll = false ∧ f.ask.Fits r then
          some (s.proceed i f r false false)
        else none
  | .refuse i errno => match s.flight i with
    | none => none
    | some f =>
        if s.active = some i ∧ f.ask.isPoll = true then
          some (s.proceed i f { ret := -1, errno := errno, value := 0 } true false)
        else none
  | .suspend i => match s.flight i with
    | none => none
    | some f =>
        if s.active = some i ∧ f.ask.isPoll = true then
          some { s with active := none, waiting := Function.update s.waiting i true }
        else none
  | .event i revents => match s.flight i with
    | none => none
    | some f =>
        if s.active = none ∧ s.waiting i = true ∧ f.ask.isPoll = true then
          some (s.proceed i f (pollReply f.timeout false revents s.errno) true false)
        else none
  | .expire i revents => match s.flight i with
    | none => none
    | some f =>
        if s.active = none ∧ s.waiting i = true ∧ f.ask.isPoll = true ∧ f.timeout > 0 then
          some (s.proceed i f (pollReply f.timeout true revents s.errno) true true)
        else none

end IoThread

end CppGo.Netio
