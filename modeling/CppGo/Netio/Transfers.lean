import CppGo.Netio.IoCalls

/-!
# The bytes that calls transfer

A byte is named by its address.  A system call is given some bytes in order, and the
number that it replies says how many of them it has moved.
-/

namespace CppGo.Netio

open CppGo.Lib

def Iovec.bytes (v : Iovec) : List Nat := List.range' v.iov_base v.iov_len

def bytes (iov : List Iovec) : List Nat := iov.flatMap Iovec.bytes

namespace Request

def region : Request → List Nat
  | .recv _ buf count _ | .send _ buf count _ => List.range' buf count
  | .sendto _ buf len _ _ _ | .recvfrom _ buf len _ _ _ => List.range' buf len
  | .read _ v | .write _ v => v.bytes
  | .readv _ iov | .writev _ iov => bytes iov
  | _ => []

/-- What a system call can reply: it moves no more bytes than it is given.  `Poll` and the
others reply anything. -/
def Moves (q : Request) (r : Reply) : Prop := ∀ n : Nat, q.size = some n → r.ret ≤ n

instance (q : Request) (r : Reply) : Decidable (q.Moves r) :=
  decidable_of_iff ((q.size.all fun n : Nat => decide (r.ret ≤ n)) = true)
    (by simp [Moves, Option.all_eq_true])

end Request

def transferred (xs : List (Request × Reply)) : List Nat :=
  xs.flatMap fun x => x.1.region.take x.2.ret.toNat

@[simp] theorem transferred_nil : transferred [] = [] := rfl

theorem transferred_concat (xs : List (Request × Reply)) (q : Request) (r : Reply) :
    transferred (xs ++ [(q, r)]) = transferred xs ++ q.region.take r.ret.toNat := by
  simp [transferred]

theorem transferred_failed {r : Reply} (hret : r.ret < 0) (xs : List (Request × Reply))
    (q : Request) : transferred (xs ++ [(q, r)]) = transferred xs := by
  rw [transferred_concat, Int.toNat_eq_zero.mpr hret.le, List.take_zero, List.append_nil]

theorem transferred_poll (xs : List (Request × Reply)) (fd : Int) (events : BitVec 32)
    (timeout : Int) (r : Reply) :
    transferred (xs ++ [(.poll fd events timeout, r)]) = transferred xs := by
  have hregion : (Request.poll fd events timeout).region = [] := rfl
  rw [transferred_concat, hregion, List.take_nil, List.append_nil]

@[simp] theorem length_bytes_iovec (v : Iovec) : v.bytes.length = v.iov_len := by
  rw [Iovec.bytes, List.length_range']

@[simp] theorem bytes_nil : bytes [] = [] := rfl

@[simp] theorem bytes_cons (v : Iovec) (iov : List Iovec) :
    bytes (v :: iov) = v.bytes ++ bytes iov := by
  simp [bytes]

end CppGo.Netio
