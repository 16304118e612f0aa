import CppGo.Lib.Machine
import CppGo.Lib.Tickets

/-!
# `LockFreeRingQueue`

The queue of `lock_free_ring_queue.h` and the calls of `Push` and `Pop` on it, of which any
number may be under way.  A step is one load, one compare-exchange, one construction or one
move out of a slot.
-/

namespace CppGo.Common

open CppGo.Lib

/-- The argument of the constructor, and the width of `SizeType`.  `buffer_` has
`capacity_` elements in memory, so `capacity_` does not overflow `size_t`. -/
structure RingSize where
  capacity : Nat
  bits : Nat
  pos : 1 ≤ capacity
  fits : capacity < 2 ^ bits

namespace RingSize

/-- `reCapacity(capacity)` -/
def capacity_ (z : RingSize) : Nat := z.capacity + 1

def mod (z : RingSize) (val : Nat) : Nat := val % 2 ^ z.bits % z.capacity_

end RingSize

structure LockFreeResult where
  success : Bool
  notify : Bool
deriving DecidableEq, Repr

/-- An element, with the call of `Push` that has constructed it. -/
structure Element (α : Type) where
  push : Nat
  value : α
deriving DecidableEq, Repr

/-- What a call of `Push` does next, with its local variables.  `slot` is what `write` was
when the element was constructed, since `compare_exchange_weak` may overwrite `write`. -/
inductive PushPc
  | loadWrite
  | loadWritable (write : Nat)
  /-- the compare-exchange on `write_` -/
  | exchangeWrite (write writable : Nat)
  | construct (write writable : Nat)
  | loadReadable (slot write writable : Nat)
  /-- the compare-exchange on `readable_` -/
  | exchangeReadable (slot write writable readable : Nat)
  | done (result : LockFreeResult)
deriving DecidableEq, Repr

/-- What a call of `Pop` does next.  `t` is what it has moved out of the slot, which is none
when there was no element. -/
inductive PopPc (α : Type)
  | loadRead
  | loadReadable (read : Nat)
  /-- the compare-exchange on `read_` -/
  | exchangeRead (read readable : Nat)
  | move (read : Nat)
  /-- the compare-exchange on `writable_` -/
  | exchangeWritable (read check : Nat) (t : Option (Element α))
  /-- the load of `readable_` for `notify` -/
  | loadNotify (read : Nat) (t : Option (Element α))
  | done (result : LockFreeResult) (t : Option (Element α))
deriving DecidableEq, Repr

inductive RingCall (α : Type)
  | push (v : α) (pc : PushPc)
  | pop (pc : PopPc α)
deriving DecidableEq, Repr

def RingCall.moved {α : Type} : RingCall α → Option (Element α)
  | .pop (.exchangeWritable _ _ t) | .pop (.loadNotify _ t) => t
  | .pop (.done result t) => if result.success then t else none
  | _ => none

/-- A slot of `buffer_` is none where no element is constructed.  `calls` are all calls that
have begun, those that have returned included. -/
structure LockFreeRingQueue (α : Type) where
  buffer_ : Nat → Option (Element α)
  write_ : Nat
  writable_ : Nat
  read_ : Nat
  readable_ : Nat
  calls : List (RingCall α)

inductive RingStep (α : Type)
  | push (v : α)
  | pop
  /-- the next step of the call `c`, in which `compare_exchange_weak` may fail spuriously -/
  | next (c : Nat) (spurious : Bool)
deriving DecidableEq, Repr

namespace LockFreeRingQueue

variable {α : Type}

def make (z : RingSize) : LockFreeRingQueue α :=
  { buffer_ := fun _ => none
    write_ := 0
    writable_ := z.capacity_ - 1
    read_ := 0
    readable_ := 0
    calls := [] }

def setCall (s : LockFreeRingQueue α) (c : Nat) (call : RingCall α) : LockFreeRingQueue α :=
  { s with calls := s.calls.set c call }

/-- `compare_exchange_weak` on a counter with the value `val` succeeds. -/
def Exchanges (val expected : Nat) (spurious : Bool) : Prop := val = expected ∧ spurious = false

instance (val expected : Nat) (spurious : Bool) : Decidable (Exchanges val expected spurious) :=
  inferInstanceAs (Decidable (_ ∧ _))

variable (z : RingSize)

/-- The next step of the call `c` of `Push(v)`. -/
def push (s : LockFreeRingQueue α) (c : Nat) (v : α) (spurious : Bool) :
    PushPc → Option (LockFreeRingQueue α)
  | .loadWrite => some (s.setCall c (.push v (.loadWritable s.write_)))
  | .loadWritable write =>
      let writable := s.writable_
      some (s.setCall c (.push v (if write = writable then .done ⟨false, false⟩
        else .exchangeWrite write writable)))
  | .exchangeWrite write writable =>
      if Exchanges s.write_ write spurious then
        some ({ s with write_ := z.mod (write + 1) }.setCall c
          (.push v (.construct write writable)))
      else some (s.setCall c (.push v .loadWrite))
  | .construct write writable =>
      some ({ s with buffer_ := Function.update s.buffer_ write (some ⟨c, v⟩) }.setCall c
        (.push v (.loadReadable write write writable)))
  | .loadReadable slot write writable =>
      some (s.setCall c (.push v (.exchangeReadable slot write writable s.readable_)))
  | .exchangeReadable slot write writable readable =>
      if Exchanges s.readable_ write spurious then
        some ({ s with readable_ := z.mod (readable + 1) }.setCall c
          (.push v (.done ⟨true, write = z.mod (writable + 1)⟩)))
      else some (s.setCall c (.push v (.loadReadable slot s.readable_ writable)))
  | .done _ => none

def pop (s : LockFreeRingQueue α) (c : Nat) (spurious : Bool) :
    PopPc α → Option (LockFreeRingQueue α)
  | .loadRead => some (s.setCall c (.pop (.loadReadable s.read_)))
  | .loadReadable read =>
      let readable := s.readable_
      some (s.setCall c (.pop (if read = readable then .done ⟨false, false⟩ none
        else .exchangeRead read readable)))
  | .exchangeRead read _ =>
      if Exchanges s.read_ read spurious then
        some ({ s with read_ := z.mod (read + 1) }.setCall c (.pop (.move read)))
      else some (s.setCall c (.pop .loadRead))
  | .move read =>
      some ({ s with buffer_ := Function.update s.buffer_ read none }.setCall c
        (.pop (.exchangeWritable read (z.mod (read + z.capacity_ - 1)) (s.buffer_ read))))
  | .exchangeWritable read check t =>
      if Exchanges s.writable_ check spurious then
        some ({ s with writable_ := read }.setCall c (.pop (.loadNotify read t)))
      else some (s.setCall c (.pop (.exchangeWritable read s.writable_ t)))
  | .loadNotify read t =>
      some (s.setCall c (.pop (.done ⟨true, read = z.mod (s.readable_ + 1)⟩ t)))
  | .done _ _ => none

def next (s : LockFreeRingQueue α) (c : Nat) (spurious : Bool) :
    RingCall α → Option (LockFreeRingQueue α)
  | .push v pc => s.push z c v spurious pc
  | .pop pc => s.pop z c spurious pc

def step (s : LockFreeRingQueue α) : RingStep α → Option (LockFreeRingQueue α)
  | .push v => some { s with calls := s.calls ++ [.push v .loadWrite] }
  | .pop => some { s with calls := s.calls ++ [.pop .loadRead] }
  | .next c spurious => s.calls[c]?.bind (s.next z c spurious)

/-- The slot is in `[read_, write_)`. -/
def Stores (s : LockFreeRingQueue α) (i : Nat) : Prop :=
  (i + z.capacity_ - s.read_) % z.capacity_ < (s.write_ + z.capacity_ - s.read_) % z.capacity_

instance (s : LockFreeRingQueue α) (i : Nat) : Decidable (s.Stores z i) :=
  inferInstanceAs (Decidable (_ < _))

def moved (s : LockFreeRingQueue α) (c : Nat) : Option (Element α) := s.calls[c]?.bind RingCall.moved

end LockFreeRingQueue

end CppGo.Common
