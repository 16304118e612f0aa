import CppGo.Lib.LockCode
import CppGo.Lib.Machine
import Mathlib.Logic.Function.Basic
import Mathlib.Order.WellFounded

/-!
# Threads and coroutines that share spin locks

Every thread `t` has a frame of its own, `.inl t`, and every coroutine `c` one, `.inr c`.  A
thread runs its own frame or, between the `switch` of its own code and the one of the coroutine,
the frame of a coroutine.  Which code an idle frame starts next is up to the run.

A lock is its flag, as a spin lock keeps it.  Which frame has set it is recorded in `held`, which no
step reads.
-/

namespace CppGo.Lib.LockMachine

open LockCode

variable {L ι κ α β : Type*} [DecidableEq L] [DecidableEq ι] [DecidableEq κ]

structure Frame (L : Type*) where
  held : List L
  todo : List (LockCode L)

/-- One step of a frame other than a switch; `n` makes the choice. -/
def Frame.step (flag : L → Bool) (f : Frame L) (n : Nat) : Option (Frame L × (L → Bool)) :=
  match f.todo with
  | [] => none
  | .skip :: k => some ({ f with todo := k }, flag)
  | .acquire l :: k =>
      if flag l then none
      else some ({ held := l :: f.held, todo := k }, Function.update flag l true)
  | .release l :: k =>
      some ({ held := f.held.erase l, todo := k }, Function.update flag l false)
  | .tryAcquire l taken failed :: k =>
      if flag l then some ({ f with todo := failed :: k }, flag)
      else some ({ held := l :: f.held, todo := taken :: k }, Function.update flag l true)
  | .switch :: _ => none
  | .seq a b :: k => some ({ f with todo := a :: b :: k }, flag)
  | .choose branch :: k => some ({ f with todo := branch n :: k }, flag)
  | .loop body :: k =>
      some ({ f with todo := if n = 0 then k else body :: .loop body :: k }, flag)

structure State (L ι κ : Type*) where
  frame : ι ⊕ κ → Frame L
  /-- The coroutine that a thread has switched to. -/
  on : ι → Option κ
  /-- A thread has switched to the coroutine. -/
  seated : κ → Bool
  flag : L → Bool

namespace State

def make : State L ι κ where
  frame _ := { held := [], todo := [] }
  on _ := none
  seated _ := false
  flag _ := false

def active (s : State L ι κ) (t : ι) : ι ⊕ κ :=
  match s.on t with
  | none => .inl t
  | some c => .inr c

def setTodo (s : State L ι κ) (i : ι ⊕ κ) (k : List (LockCode L)) : State L ι κ :=
  { s with frame := Function.update s.frame i { s.frame i with todo := k } }

end State

/-- The thread `t` takes a step, switches to or from the coroutine `c`, or begins a call. -/
inductive Event (ι κ α β : Type*)
  | step (t : ι) (n : Nat)
  | swapIn (t : ι) (c : κ)
  | swapOut (t : ι)
  | call (t : ι) (a : α)
  | start (t : ι) (b : β)

/-- The machine whose coroutines make the calls `inside` and whose threads make the calls
`outside`. -/
def step (inside : α → LockCode L) (outside : β → LockCode L) (s : State L ι κ) :
    Event ι κ α β → Option (State L ι κ)
  | .step t n =>
      ((s.frame (s.active t)).step s.flag n).map fun r =>
        { s with frame := Function.update s.frame (s.active t) r.1, flag := r.2 }
  | .swapIn t c =>
      match s.on t, s.seated c, (s.frame (.inl t)).todo with
      | none, false, .switch :: k =>
          some { s.setTodo (.inl t) k with
            on := Function.update s.on t (some c)
            seated := Function.update s.seated c true }
      | _, _, _ => none
  | .swapOut t =>
      match s.on t with
      | none => none
      | some c =>
          match (s.frame (.inr c)).todo with
          | .switch :: k =>
              some { s.setTodo (.inr c) k with
                on := Function.update s.on t none
                seated := Function.update s.seated c false }
          | _ => none
  | .call t a =>
      match s.on t with
      | none => none
      | some c =>
          if (s.frame (.inr c)).todo = [] then some (s.setTodo (.inr c) [inside a]) else none
  | .start t b =>
      if s.on t = none ∧ (s.frame (.inl t)).todo = [] then
        some (s.setTodo (.inl t) [outside b])
      else none

/-- The thread holds the lock, in its own code or in that of the coroutine it has
switched to. -/
def State.Holds (s : State L ι κ) (t : ι) (l : L) : Prop :=
  l ∈ (s.frame (.inl t)).held ∨ ∃ c, s.on t = some c ∧ l ∈ (s.frame (.inr c)).held

def State.Waits (s : State L ι κ) (t : ι) (l : L) : Prop :=
  ∃ k, (s.frame (s.active t)).todo = .acquire l :: k

/-- Each thread of the set waits for a lock that one of them holds. -/
def State.Deadlocked (s : State L ι κ) (T : Set ι) : Prop :=
  T.Nonempty ∧ ∀ t ∈ T, ∃ l, s.Waits t l ∧ ∃ u ∈ T, s.Holds u l

def State.SwitchesOut (s : State L ι κ) (t : ι) (c : κ) : Prop :=
  s.on t = some c ∧ ∃ k, (s.frame (.inr c)).todo = .switch :: k

end CppGo.Lib.LockMachine
