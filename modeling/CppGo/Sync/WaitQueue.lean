import Mathlib.Data.List.Nodup
import Mathlib.Logic.Function.Basic
import Mathlib.Tactic.Common

/-!
# `WaitQueue1<T>`

`sync/wait_queue.h`: an intrusive singly linked queue with a dummy head.  The
hooks are addresses of a type `H`; `next` is the `next` field of every hook.
`Represents` relates the pointers to the list of queued hooks, and `push` and
`pop` are the two list operations the channel model performs on its waiters.
-/

namespace CppGo.Sync

structure WaitQueue1 (H : Type*) where
  next : H → Option H
  head_ : H
  tail_ : H
  count_ : Nat

namespace WaitQueue1

variable {H : Type*}

def make (dummy_ : H) : WaitQueue1 H :=
  { next := fun _ => none, head_ := dummy_, tail_ := dummy_, count_ := 0 }

def push [DecidableEq H] (q : WaitQueue1 H) (ptr : H) : WaitQueue1 H :=
  { q with
    next := Function.update (Function.update q.next q.tail_ (some ptr)) ptr none
    tail_ := ptr
    count_ := q.count_ + 1 }

def pop [DecidableEq H] (q : WaitQueue1 H) : Option (H × WaitQueue1 H) :=
  if q.head_ = q.tail_ then none
  else
    (q.next q.head_).map fun ptr =>
      (ptr,
        { q with
          next := Function.update
            (Function.update q.next q.head_ (q.next ptr)) ptr none
          tail_ := if q.tail_ = ptr then q.head_ else q.tail_
          count_ := q.count_ - 1 })

def hooks (next : H → Option H) : H → Nat → List H
  | _, 0 => []
  | h, n + 1 => match next h with
    | none => []
    | some x => x :: hooks next x n

def toList (q : WaitQueue1 H) : List H := hooks q.next q.head_ q.count_

def Chain (next : H → Option H) : H → List H → Prop
  | h, [] => next h = none
  | h, x :: xs => next h = some x ∧ Chain next x xs

structure Represents (q : WaitQueue1 H) (xs : List H) : Prop where
  nodup : (q.head_ :: xs).Nodup
  chain : Chain q.next q.head_ xs
  tail : q.tail_ = (q.head_ :: xs).getLast (by simp)
  count : q.count_ = xs.length

theorem represents_make (dummy_ : H) : (make dummy_).Represents [] where
  nodup := by simp
  chain := rfl
  tail := rfl
  count := rfl

theorem Represents.toList_eq {q : WaitQueue1 H} {xs : List H} (h : q.Represents xs) :
    q.toList = xs := by
  have key : ∀ (xs : List H) (x : H), Chain q.next x xs → hooks q.next x xs.length = xs := by
    intro xs
    induction xs with
    | nil => exact fun _ _ => rfl
    | cons y ys ih => exact fun x hc => by simp [hooks, hc.1, ih y hc.2]
  rw [toList, h.count]
  exact key xs _ h.chain

theorem Chain.congr {next next' : H → Option H} {h : H} {xs : List H}
    (hc : Chain next h xs) (heq : ∀ a ∈ h :: xs, next' a = next a) :
    Chain next' h xs := by
  induction xs generalizing h with
  | nil => exact (heq h (by simp)).trans hc
  | cons x xs ih =>
      refine ⟨(heq h (by simp)).trans hc.1, ih hc.2 fun a ha => heq a ?_⟩
      exact List.mem_cons_of_mem _ ha

variable [DecidableEq H]

theorem Chain.snoc {next : H → Option H} {h e : H} {xs : List H}
    (hc : Chain next h xs) (hnd : (h :: xs).Nodup) (he : e ∉ h :: xs) :
    Chain (Function.update (Function.update next ((h :: xs).getLast (by simp)) (some e)) e none)
      h (xs ++ [e]) := by
  induction xs generalizing h with
  | nil =>
      have hne : h ≠ e := by
        rintro rfl
        simp at he
      simp [Chain, Function.update_of_ne hne]
  | cons x xs ih =>
      have hhe : h ≠ e := by
        rintro rfl
        simp at he
      have hhl : h ≠ (x :: xs).getLast (by simp) := by
        intro heq
        have hmem := List.getLast_mem (l := x :: xs) (by simp)
        rw [← heq] at hmem
        exact (List.nodup_cons.mp hnd).1 hmem
      have htl := ih hc.2 (List.nodup_cons.mp hnd).2 (by simp at he ⊢; tauto)
      refine ⟨?_, by simpa [List.getLast_cons] using htl⟩
      rw [Function.update_of_ne hhe]
      simpa [List.getLast_cons, Function.update_of_ne hhl] using hc.1

theorem Represents.push {q : WaitQueue1 H} {xs : List H} {e : H}
    (h : q.Represents xs) (he : e ∉ q.head_ :: xs) :
    (q.push e).Represents (xs ++ [e]) where
  nodup := by
    simp only [List.mem_cons, not_or] at he
    show (q.head_ :: (xs ++ [e])).Nodup
    rw [← List.cons_append, List.nodup_append]
    refine ⟨h.nodup, by simp, ?_⟩
    intro a ha b hb hab
    obtain rfl : b = e := by simpa using hb
    subst hab
    simp only [List.mem_cons] at ha
    exact ha.elim he.1 he.2
  chain := by
    have := h.chain.snoc h.nodup he
    rwa [← h.tail] at this
  tail := by simp [WaitQueue1.push]
  count := by simp [WaitQueue1.push, h.count]

theorem Represents.pop_nil {q : WaitQueue1 H} (h : q.Represents []) : q.pop = none := by
  have htail : q.tail_ = q.head_ := h.tail
  simp [pop, htail]

theorem Represents.pop_cons {q : WaitQueue1 H} {x : H} {xs : List H}
    (h : q.Represents (x :: xs)) :
    ∃ q', q.pop = some (x, q') ∧ q'.head_ = q.head_ ∧ q'.Represents xs := by
  have hhead : q.next q.head_ = some x := h.chain.1
  have hnd := h.nodup
  simp only [List.nodup_cons, List.mem_cons, not_or] at hnd
  obtain ⟨⟨hhx, hhxs⟩, hxxs, hxs⟩ := hnd
  have hne : q.head_ ≠ q.tail_ := by
    intro heq
    have hmem := List.getLast_mem (l := x :: xs) (by simp)
    rw [← List.getLast_cons (a := q.head_) (by simp), ← h.tail, ← heq] at hmem
    simp only [List.mem_cons] at hmem
    exact hmem.elim hhx hhxs
  refine ⟨{ q with
      next := Function.update (Function.update q.next q.head_ (q.next x)) x none
      tail_ := if q.tail_ = x then q.head_ else q.tail_
      count_ := q.count_ - 1 }, by simp [pop, hne, hhead], rfl, ?_⟩
  refine ⟨by simp [hhxs, hxs], ?_, ?_, ?_⟩
  · -- unlinking `x` moves its successor behind the dummy
    cases xs with
    | nil =>
        have hlast : q.next x = none := h.chain.2
        simp [Chain, Function.update_of_ne hhx, hlast]
    | cons y ys =>
        have hnext : q.next x = some y := h.chain.2.1
        refine ⟨by simp [Function.update_of_ne hhx, hnext], h.chain.2.2.congr ?_⟩
        intro a ha
        have hax : a ≠ x := by
          rintro rfl
          exact hxxs ha
        have hah : a ≠ q.head_ := by
          rintro rfl
          exact hhxs ha
        simp [Function.update_of_ne hax, Function.update_of_ne hah]
  · have htail := h.tail
    cases xs with
    | nil =>
        have htx : q.tail_ = x := by simpa using htail
        simp [htx]
    | cons y ys =>
        have hmem := List.getLast_mem (l := y :: ys) (by simp)
        have htx : q.tail_ ≠ x := by
          intro heq
          rw [heq] at htail
          simp only [List.getLast_cons_cons] at htail
          rw [← htail] at hmem
          exact hxxs hmem
        simpa [htx] using htail
  · simp [h.count]

end WaitQueue1

end CppGo.Sync
