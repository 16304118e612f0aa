import CppGo.Netio.IoThread

/-!
# The result contract of the timed calls

Which steps of a thread make a call break the contract of `net_fd.h`: `errno` is that of
the thread, and one exit of `Poll` leaves it as another coroutine has set it.
-/

namespace CppGo.Netio

open CppGo.Lib CppGo.Lib.Machine

inductive Heard (f : Flight) (r : Reply) : Flight ⊕ Exit → Prop
  | goOn (f' : Flight)
      (hretry : r.ret < 0 → r.errno = EINTR ∨ r.errno = EAGAIN ∧ f.timeout ≠ 0) :
      Heard f r (.inl f')
  | failed (hret : r.ret < 0) (hintr : r.errno ≠ EINTR) (hagain : r.errno ≠ EAGAIN) :
      Heard f r (.inr (.returned (-1)))
  | empty (hret : r.ret < 0) (hagain : r.errno = EAGAIN) (htimeout : f.timeout = 0)
      (hzeroes : f.call.zeroes = true) : Heard f r (.inr (.returned 0))
  | notReady (hret : r.ret < 0) (hagain : r.errno = EAGAIN) (hzeroes : f.call.zeroes = false) :
      Heard f r (.inr (.returned r.ret))
  | done (n : Int) (hret : 0 ≤ r.ret) (hn : 0 ≤ n) (hreceived : f.call.receives = true → n = r.ret) :
      Heard f r (.inr (.returned n))

namespace IoThread

variable {s s' : IoThread} {a : IoStep}

def exceptional (revents : BitVec 16) : Bool :=
  ofShort revents &&& POLLNVAL == 0 && ofShort revents &&& POLL_EXCEPTION != 0

/-- The system call does not fail with `ETIME`, and has something to say where the call
would return 0 for `EAGAIN`. -/
def CleanReply (f : Flight) (ret : Int) (errno : Nat) : Prop :=
  ret < 0 → errno ≠ ETIME ∧ ¬ (errno = EAGAIN ∧ f.timeout = 0 ∧ f.call.zeroes = true)

/-- `PollsetAdd` does not fail with `ETIME`, and `Poll` does not return -1 for an event
while another coroutine has left `ETIME` in `errno`. -/
def Clean (s : IoThread) : IoStep → Prop
  | .reply i ret errno => ∀ f ∈ s.flight i, CleanReply f ret errno
  | .refuse _ errno => errno ≠ ETIME
  | .event _ revents => exceptional revents = true → s.errno ≠ ETIME
  | _ => True

instance (f : Flight) (ret : Int) (errno : Nat) : Decidable (CleanReply f ret errno) :=
  inferInstanceAs (Decidable (_ → _))

instance decidableClean (s : IoThread) : ∀ a, Decidable (s.Clean a)
  | .reply i ret errno => inferInstanceAs (Decidable (∀ f ∈ s.flight i, CleanReply f ret errno))
  | .refuse _ errno => inferInstanceAs (Decidable (errno ≠ ETIME))
  | .event _ revents =>
      inferInstanceAs (Decidable (exceptional revents = true → s.errno ≠ ETIME))
  | .switchIn _ | .switchOut _ | .setErrno _ _ | .call _ _ _ | .suspend _ | .expire _ _ =>
      .isTrue trivial

end IoThread

end CppGo.Netio
