import CppGo.Lib.Client
import CppGo.Netio.Epoll
import Mathlib.Algebra.Ring.Nat

/-!
# The I/O calls of a coroutine

`netio/inner_net/net_fd.cpp` for Unix: the loops around the system calls.  A call is a
client of the kernel and of `InnerIoWait::Poll`; every reply brings the `errno` of the
thread.  Addresses are numbers, and a list of `Iovec` stands for a pointer into an array
with the number of the elements that are left.
-/

namespace CppGo.Netio

open CppGo.Lib

def EINTR : Nat := 4
def EAGAIN : Nat := 11
def EADDRINUSE : Nat := 98
def EINPROGRESS : Nat := 115
def O_NONBLOCK : Nat := 2048

def LOCAL_MAXIOV : Nat := 16

structure Iovec where
  iov_base : Nat
  iov_len : Nat
deriving DecidableEq, Repr

def totalLen (iov : List Iovec) : Nat := (iov.map Iovec.iov_len).sum

inductive Request
  | connect (fd : Int) (addr addrlen : Nat)
  /-- with `SO_ERROR` -/
  | getsockopt (fd : Int)
  | setErrno (err : Nat)
  | recv (fd : Int) (buf count : Nat) (flags : Int)
  | send (fd : Int) (buf count : Nat) (flags : Int)
  | sendto (fd : Int) (buf len : Nat) (flags : Int) (dest_addr addrlen : Nat)
  | recvfrom (fd : Int) (buf len : Nat) (flags : Int) (src_addr addrlen : Nat)
  | accept (fd : Int) (addr addrlen : Nat)
  /-- with `FIONBIO` -/
  | ioctl (fd : Int)
  | fcntlGetfl (fd : Int)
  | fcntlSetfl (fd : Int) (flags : Nat)
  | close (fd : Int)
  | read (fd : Int) (v : Iovec)
  | readv (fd : Int) (iov : List Iovec)
  | write (fd : Int) (v : Iovec)
  | writev (fd : Int) (iov : List Iovec)
  | poll (fd : Int) (events : BitVec 32) (timeout : Int)
deriving DecidableEq, Repr

/-- `value` is the option that `getsockopt` reads. -/
structure Reply where
  ret : Int
  errno : Nat
  value : Nat
deriving DecidableEq, Repr

namespace Request

def isPoll : Request → Bool
  | .poll _ _ _ => true
  | _ => false

def size : Request → Option Nat
  | .recv _ _ count _ | .send _ _ count _ => some count
  | .sendto _ _ len _ _ _ | .recvfrom _ _ len _ _ _ => some len
  | .read _ v | .write _ v => some v.iov_len
  | .readv _ iov | .writev _ iov => some (totalLen iov)
  | _ => none

/-- An array of `readv` or `writev` that is longer than a `ssize_t` can say. -/
def tooLong : Request → Bool
  | .readv _ iov | .writev _ iov => 2 ^ 63 ≤ totalLen iov
  | _ => false

/-- What the kernel can reply: a system call moves no more bytes than it is given, and at
most `0x7ffff000`. -/
def Fits (q : Request) (r : Reply) : Prop :=
  (∀ n : Nat, q.size = some n → r.ret ≤ n ∧ r.ret ≤ 0x7ffff000) ∧ (q.tooLong = true → r.ret < 0)

instance (q : Request) (r : Reply) : Decidable (q.Fits r) :=
  decidable_of_iff
    ((q.size.all fun n : Nat => decide (r.ret ≤ n ∧ r.ret ≤ 0x7ffff000)) = true ∧
      (q.tooLong = true → r.ret < 0))
    (and_congr_left fun _ => by simp [Option.all_eq_true])

end Request

inductive Exit
  | returned (ret : Int)
  /-- a failed assertion -/
  | aborted
  /-- an element behind the end of the array is read -/
  | overrun
deriving DecidableEq, Repr

/-- What the loops do with `errno` after a system call has failed: `continue`, return an
error, return at once because of `timeout == 0`, or go on to `Poll`. -/
def refused {α : Type} (errno : Nat) (timeout : Int) (again error notReady wait : α) : α :=
  if errno = EINTR then again
  else if errno ≠ EAGAIN then error
  else if timeout = 0 then notReady
  else wait

/-! ## `inner_connect` -/

inductive ConnectPc
  | connect (err : Nat)
  | poll
  | getsockopt
  | setErrno (err : Nat)
deriving DecidableEq, Repr

def innerConnect (sockfd : Int) (addr addrlen : Nat) (timeout : Int) :
    Client ConnectPc Request Reply Exit where
  start := .inl (.connect 0)
  ask
    | .connect _ => .connect sockfd addr addrlen
    | .poll => .poll sockfd POLLOUT timeout
    | .getsockopt => .getsockopt sockfd
    | .setErrno err => .setErrno err
  hear
    | .connect err, r =>
        if 0 ≤ r.ret then .inr (.returned 0)
        else if timeout = 0 then .inr (.returned (-1))
        else if r.errno = EINTR then .inl (.connect 1)
        else if r.errno ≠ EINPROGRESS ∧ (r.errno ≠ EADDRINUSE ∨ err = 0) then
          .inr (.returned (-1))
        else .inl .poll
    | .poll, r => if r.ret < 0 then .inr (.returned (-1)) else .inl .getsockopt
    | .getsockopt, r =>
        if r.ret < 0 then .inr (.returned (-1))
        else if r.value ≠ 0 then .inl (.setErrno r.value)
        else .inr (.returned 0)
    | .setErrno _, _ => .inr (.returned (-1))

/-! ## `inner_recv`, `inner_sendto`, `inner_recvfrom` and `st_readv` -/

inductive Turn
  | call
  | poll
deriving DecidableEq, Repr

/-- Repeat a system call until it does not fail; `notReady` is what is returned for
`timeout == 0`. -/
def untilReady (call : Request) (sockfd : Int) (events : BitVec 32) (notReady : Int → Int)
    (timeout : Int) : Client Turn Request Reply Exit where
  start := .inl .call
  ask
    | .call => call
    | .poll => .poll sockfd events timeout
  hear
    | .call, r =>
        if r.ret < 0 then
          refused r.errno timeout (.inl .call) (.inr (.returned (-1)))
            (.inr (.returned (notReady r.ret))) (.inl .poll)
        else .inr (.returned r.ret)
    | .poll, r => if r.ret < 0 then .inr (.returned (-1)) else .inl .call

def innerRecv (sockfd : Int) (buf count : Nat) (flags timeout : Int) :
    Client Turn Request Reply Exit :=
  untilReady (.recv sockfd buf count flags) sockfd POLLIN (fun _ => 0) timeout

def innerSendto (sockfd : Int) (buf len : Nat) (flags : Int) (dest_addr addrlen : Nat)
    (timeout : Int) : Client Turn Request Reply Exit :=
  untilReady (.sendto sockfd buf len flags dest_addr addrlen) sockfd POLLOUT id timeout

def innerRecvfrom (sockfd : Int) (buf len : Nat) (flags : Int) (src_addr addrlen : Nat)
    (timeout : Int) : Client Turn Request Reply Exit :=
  untilReady (.recvfrom sockfd buf len flags src_addr addrlen) sockfd POLLIN id timeout

def stReadv (sockfd : Int) (iov : List Iovec) (timeout : Int) :
    Client Turn Request Reply Exit :=
  untilReady (.readv sockfd iov) sockfd POLLIN (fun _ => 0) timeout

def stRead (sockfd : Int) (buf count : Nat) (timeout : Int) : Client Turn Request Reply Exit :=
  innerRecv sockfd buf count 0 timeout

/-! ## `inner_send` -/

inductive SendPc
  | send (offset count : Nat)
  | poll (offset count : Nat)
deriving DecidableEq, Repr

/-- On Unix `send` is always called with `buf` itself. -/
def innerSend (sockfd : Int) (buf count : Nat) (flags timeout : Int) :
    Client SendPc Request Reply Exit where
  start := .inl (.send 0 count)
  ask
    | .send _ count => .send sockfd buf count flags
    | .poll _ _ => .poll sockfd POLLOUT timeout
  hear
    | .send offset count, r =>
        if r.ret < 0 then
          refused r.errno timeout (.inl (.send offset count)) (.inr (.returned (-1)))
            (.inr (.returned r.ret)) (.inl (.poll offset count))
        else if timeout = 0 then .inr (.returned r.ret)
        else if count - r.ret.toNat = 0 then .inr (.returned (offset + r.ret))
        else .inl (.poll (offset + r.ret.toNat) (count - r.ret.toNat))
    | .poll offset count, r =>
        if r.ret < 0 then .inr (.returned (-1)) else .inl (.send offset count)

/-! ## `inner_accept` -/

inductive AcceptPc
  | accept
  | poll
  | ioctl (osfd : Int)
  | getfl (osfd : Int)
  | setfl (osfd : Int) (flags : Nat)
  | close (osfd : Int)
deriving DecidableEq, Repr

/-- What is returned is the descriptor of the new `NetFD`. -/
def innerAccept (ndebug : Bool) (sockfd : Int) (addr addrlen : Nat) (timeout : Int) :
    Client AcceptPc Request Reply Exit where
  start := .inl .accept
  ask
    | .accept => .accept sockfd addr addrlen
    | .poll => .poll sockfd POLLIN timeout
    | .ioctl osfd => .ioctl osfd
    | .getfl osfd => .fcntlGetfl osfd
    | .setfl osfd flags => .fcntlSetfl osfd (flags ||| O_NONBLOCK)
    | .close osfd => .close osfd
  hear
    | .accept, r =>
        if r.ret < 0 then
          if ndebug = false ∧ r.errno ≠ EAGAIN then .inr .aborted
          else refused r.errno timeout (.inl .accept) (.inr (.returned (-1)))
            (.inr (.returned (-1))) (.inl .poll)
        else .inl (.ioctl r.ret)
    | .poll, r => if r.ret < 0 then .inr (.returned (-1)) else .inl .accept
    | .ioctl osfd, r => if r.ret = -1 then .inl (.close osfd) else .inl (.getfl osfd)
    | .getfl osfd, r =>
        if r.ret < 0 then .inl (.close osfd) else .inl (.setfl osfd r.ret.toNat)
    | .setfl osfd _, r => if r.ret < 0 then .inl (.close osfd) else .inr (.returned osfd)
    | .close _, _ => .inr (.returned (-1))

/-! ## `st_readv_resid` and `st_writev_resid` -/

/-- The loop over the elements that `n` bytes fill: what is left of `n`, and of the
array. -/
def advance : Nat → List Iovec → Option (Nat × List Iovec)
  | _, [] => none
  | n, v :: iov =>
      if v.iov_len ≤ n then
        if n - v.iov_len = 0 then some (0, iov) else advance (n - v.iov_len) iov
      else some (n, v :: iov)

def Iovec.drop (v : Iovec) (n : Nat) : Iovec :=
  { iov_base := v.iov_base + n, iov_len := v.iov_len - n }

inductive ResidPc
  | call (iov : List Iovec)
  | poll (iov : List Iovec)
deriving DecidableEq, Repr

namespace ResidPc

def enter (iov : List Iovec) : ResidPc ⊕ Exit × List Iovec :=
  match iov with
  | [] => .inr (.returned 0, [])
  | v :: rest => .inl (.call (v :: rest))

def failed (iov : List Iovec) (errno : Nat) (timeout : Int) : ResidPc ⊕ Exit × List Iovec :=
  refused errno timeout (.inl (.call iov)) (.inr (.returned (-1), iov))
    (.inr (.returned 0, iov)) (.inl (.poll iov))

def moved (iov : List Iovec) (n : Nat) : ResidPc ⊕ Exit × List Iovec :=
  match advance n iov with
  | none => .inr (.overrun, iov)
  | some (_, []) => .inr (.returned 0, [])
  | some (n, v :: rest) => .inl (.poll (v.drop n :: rest))

def polled (iov : List Iovec) (ret : Int) : ResidPc ⊕ Exit × List Iovec :=
  if ret < 0 then .inr (.returned (-1), iov) else .inl (.call iov)

end ResidPc

def stReadvResid (sockfd : Int) (iov : List Iovec) (timeout : Int) :
    Client ResidPc Request Reply (Exit × List Iovec) where
  start := ResidPc.enter iov
  ask
    | .call [v] => .read sockfd v
    | .call iov => .readv sockfd iov
    | .poll _ => .poll sockfd POLLIN timeout
  hear
    | .call iov, r =>
        if r.ret < 0 then ResidPc.failed iov r.errno timeout
        else if r.ret = 0 then .inr (.returned 0, iov)
        else ResidPc.moved iov r.ret.toNat
    | .poll iov, r => ResidPc.polled iov r.ret

def stWritevResid (sockfd : Int) (iov : List Iovec) (timeout : Int) :
    Client ResidPc Request Reply (Exit × List Iovec) where
  start := ResidPc.enter iov
  ask
    | .call [v] => .write sockfd v
    | .call iov => .writev sockfd iov
    | .poll _ => .poll sockfd POLLOUT timeout
  hear
    | .call iov, r =>
        if r.ret < 0 then ResidPc.failed iov r.errno timeout
        else ResidPc.moved iov r.ret.toNat
    | .poll iov, r => ResidPc.polled iov r.ret

/-! ## `st_write` -/

def firstLen : List Iovec → Nat
  | [] => 0
  | v :: _ => v.iov_len

def stWriteResid (sockfd : Int) (buf resid : Nat) (timeout : Int) :
    Client ResidPc Request Reply (Exit × Nat) :=
  (stWritevResid sockfd [{ iov_base := buf, iov_len := resid }] timeout).map
    fun r => (r.1, firstLen r.2)

/-- An `int` gets the low half of a `ssize_t`. -/
def toInt (n : Nat) : Int := (BitVec.ofNat 32 n).toInt

def writeRet (count : Nat) : Exit × Nat → Exit
  | (.returned rv, resid) => .returned (if rv = 0 then toInt (count - resid) else -1)
  | (e, _) => e

def stWrite (sockfd : Int) (buf count : Nat) (timeout : Int) :
    Client ResidPc Request Reply Exit :=
  (stWriteResid sockfd buf count timeout).map (writeRet count)

/-! ## `st_writev` -/

/-- The search for the first element that is not sent: how much of it is sent, and the
array from there on. -/
def locate : Nat → List Iovec → Option (Nat × List Iovec)
  | _, [] => none
  | n, v :: iov => if v.iov_len ≤ n then locate (n - v.iov_len) iov else some (n, v :: iov)

/-- `tmp_iov` with `iov_cnt` elements; `room` is the size of the array it points to, and
none while it is the caller's. -/
structure Gather where
  tmp_iov : List Iovec
  room : Option Nat
  nleft : Nat
deriving DecidableEq, Repr

inductive WritevPc
  | writev (g : Gather)
  | poll (g : Gather)
  /-- in `st_write` -/
  | write (g : Gather) (buf : Nat) (pc : ResidPc)
deriving DecidableEq, Repr

namespace WritevPc

def wrote (nbyte nleft : Nat) : Exit → Exit
  | .returned n => .returned (if n ≠ nleft then -1 else nbyte)
  | e => e

def enter (sockfd : Int) (nbyte : Nat) (timeout : Int) (g : Gather) : WritevPc ⊕ Exit :=
  if g.nleft = 0 then .inr (.returned nbyte)
  else match g.tmp_iov with
    | [v] => (stWrite sockfd v.iov_base g.nleft timeout).start.map (.write g v.iov_base)
        (wrote nbyte g.nleft)
    | _ => .inl (.writev g)

/-- `writev` has sent `n` bytes, but not all; `alloc` says whether `calloc` finds memory. -/
def copy (iov : List Iovec) (nbyte : Nat) (alloc : Bool) (n : Nat) (g : Gather) :
    WritevPc ⊕ Exit :=
  let nleft := g.nleft - n
  match locate (nbyte - nleft) iov with
  | none => .inr .overrun
  | some (_, []) => .inr .overrun
  | some (n, v :: rest) =>
      let tmp_iov := v.drop n :: rest
      match g.room with
      | some room => .inl (.poll { tmp_iov := tmp_iov, room := some room, nleft := nleft })
      | none =>
          if tmp_iov.length ≤ LOCAL_MAXIOV then
            .inl (.poll { tmp_iov := tmp_iov, room := some LOCAL_MAXIOV, nleft := nleft })
          else if alloc then
            .inl (.poll { tmp_iov := tmp_iov, room := some tmp_iov.length, nleft := nleft })
          else .inr (.returned (-1))

end WritevPc

/-- `nbyte` is a `size_t`. -/
def nbyte (iov : List Iovec) : Nat := totalLen iov % 2 ^ 64

def stWritev (sockfd : Int) (iov : List Iovec) (alloc : Bool) (timeout : Int) :
    Client WritevPc Request Reply Exit where
  start := WritevPc.enter sockfd (nbyte iov) timeout
    { tmp_iov := iov, room := none, nleft := nbyte iov }
  ask
    | .writev g => .writev sockfd g.tmp_iov
    | .poll _ => .poll sockfd POLLOUT timeout
    | .write g buf pc => (stWrite sockfd buf g.nleft timeout).ask pc
  hear
    | .writev g, r =>
        if r.ret < 0 then
          refused r.errno timeout (.inl (.writev g)) (.inr (.returned (-1)))
            (.inr (.returned 0)) (.inl (.poll g))
        else if r.ret = g.nleft then .inr (.returned (nbyte iov))
        else WritevPc.copy iov (nbyte iov) alloc r.ret.toNat g
    | .poll g, r =>
        if r.ret < 0 then .inr (.returned (-1))
        else WritevPc.enter sockfd (nbyte iov) timeout g
    | .write g buf pc, r =>
        ((stWrite sockfd buf g.nleft timeout).hear pc r).map (.write g buf)
          (WritevPc.wrote (nbyte iov) g.nleft)

end CppGo.Netio
