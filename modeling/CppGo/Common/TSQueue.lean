import CppGo.Lib.LinkedList

/-!
# `TSQueue` and `SList`

`common/ts_queue.h` over a heap of `TSQueueHook`s.  A hook is an element or the one that
the constructor of a `TSQueue` allocates.  The operations are those of one thread that has
the lock, and `TSQueue_DEBUG` is 0.
-/

namespace CppGo.Common

open CppGo.Lib

inductive Hook
  /-- `head_` of a `TSQueue` -/
  | head (q : Nat)
  | elem (t : Nat)
deriving DecidableEq, Repr

structure TSQueue where
  head_ : Hook
  tail_ : Hook
  count_ : Nat
  check_ : Nat
deriving DecidableEq, Repr

structure SList where
  head_ : Option Hook
  tail_ : Option Hook
  count_ : Nat
deriving DecidableEq, Repr

/-- `SList()`, and what `stealed` leaves. -/
def SList.nil : SList := { head_ := none, tail_ := none, count_ := 0 }

def SList.empty (l : SList) : Bool := l.head_.isNone

/-- `deleted` holds the elements that `SList::erase` has deleted.  Ghost: `failed` says that
an assertion has failed or that null has been dereferenced. -/
structure Heap where
  links : Links Hook
  check_ : Hook → Option Nat
  queues : List TSQueue
  slists : List SList
  deleted : List Hook
  failed : Bool

inductive Operation
  /-- `TSQueue()` -/
  | newQueue
  /-- `SList()` -/
  | newSList
  | push (q t : Nat)
  /-- `push(SList<T>&&)` and `pushWithoutLock(SList<T>&)` -/
  | pushAll (q j : Nat)
  | pop (q : Nat)
  | popFront (q n : Nat)
  | popBack (q n : Nat)
  | popAll (q : Nat)
  | erase (q t : Nat) (check : Bool)
  | front (q : Nat)
  | next (q t : Nat)
  | size (q : Nat)
  | append (i j : Nat)
  | cut (i n : Nat)
  /-- `SList(SList<T>&&)` -/
  | move (i : Nat)
  /-- `operator=(SList<T>&&)` -/
  | assign (i j : Nat)
  /-- `SList::erase(T*)` -/
  | eraseElem (i t : Nat)
deriving DecidableEq, Repr

/-- What an operation returns; a new `TSQueue` or `SList` is its number. -/
inductive Result
  | nothing
  | object (i : Nat)
  | count (n : Nat)
  | pointer (p : Option Hook)
  | bool (b : Bool)
deriving DecidableEq, Repr

namespace Heap

def make : Heap :=
  { links := .empty
    check_ := fun _ => none
    queues := []
    slists := []
    deleted := []
    failed := false }

def assert (s : Heap) (cond : Bool) : Heap := if cond then s else { s with failed := true }

def null (s : Heap) : Heap := { s with failed := true }

def setQueue (s : Heap) (q : Nat) (queue : TSQueue) : Heap :=
  { s with queues := s.queues.set q queue }

def setSList (s : Heap) (j : Nat) (l : SList) : Heap := { s with slists := s.slists.set j l }

def addSList (s : Heap) (l : SList) : Heap × Result :=
  ({ s with slists := s.slists ++ [l] }, .object s.slists.length)

def setCheck (s : Heap) (a : Hook) (check : Option Nat) : Heap :=
  { s with check_ := Function.update s.check_ a check }

/-! ## `TSQueueHook` -/

def link (s : Heap) (a theNext : Hook) : Heap :=
  let s := s.assert (s.links.next a).isNone
  let s := s.assert (s.links.prev theNext).isNone
  { s with links := (s.links.setNext a (some theNext)).setPrev theNext (some a) }

def unlink (s : Heap) (a theNext : Hook) : Heap :=
  let s := s.assert (s.links.next a == some theNext)
  let s := s.assert (s.links.prev theNext == some a)
  { s with links := (s.links.setNext a none).setPrev theNext none }

/-- `for (c = 0; c < n && p->next; ++c) p = p->next`, and the value of `c`. -/
def walk (next : Hook → Option Hook) : Nat → Hook → Hook × Nat
  | 0, p => (p, 0)
  | n + 1, p => match next p with
    | none => (p, 0)
    | some p' => ((walk next n p').1, (walk next n p').2 + 1)

/-! ## `TSQueue` -/

def newQueue (s : Heap) : Heap × Result :=
  let q := s.queues.length
  ({ s with queues := s.queues ++ [{ head_ := .head q, tail_ := .head q, count_ := 0, check_ := q }] },
    .object q)

def front (s : Heap) (queue : TSQueue) : Heap × Result :=
  let out := s.links.next queue.head_
  match out with
  | none => (s, .pointer out)
  | some a => (s.setCheck a (some queue.check_), .pointer out)

def next (s : Heap) (queue : TSQueue) (ptr : Hook) : Heap × Result :=
  let out := s.links.next ptr
  match out with
  | none => (s, .pointer out)
  | some a => (s.setCheck a (some queue.check_), .pointer out)

def push (s : Heap) (q : Nat) (queue : TSQueue) (hook : Hook) : Heap × Result :=
  let s := s.assert (s.links.next hook).isNone
  let s := s.assert (s.links.prev hook).isNone
  let s := s.link queue.tail_ hook
  let s := { s with links := s.links.setNext hook none }
  let s := s.setCheck hook (some queue.check_)
  (s.setQueue q { queue with tail_ := hook, count_ := queue.count_ + 1 }, .count (queue.count_ + 1))

def pushAll (s : Heap) (q : Nat) (queue : TSQueue) (j : Nat) (elements : SList) : Heap :=
  match elements.head_, elements.tail_ with
  | none, _ => s
  | some _, none => s.null
  | some listHead, some listTail =>
      let s := s.assert (s.links.prev listHead).isNone
      let s := s.assert (s.links.next listTail).isNone
      let s := s.link queue.tail_ listHead
      let s := s.setQueue q
        { queue with tail_ := listTail, count_ := queue.count_ + elements.count_ }
      s.setSList j .nil

def pop (s : Heap) (q : Nat) (queue : TSQueue) : Heap × Result :=
  if queue.head_ = queue.tail_ then (s, .pointer none)
  else match s.links.next queue.head_ with
  | none => (s.null, .pointer none)
  | some ptr =>
      let tail := if ptr = queue.tail_ then queue.head_ else queue.tail_
      let links := s.links.setNext queue.head_ (s.links.next ptr)
      let links := match links.next ptr with
        | some n => links.setPrev n (some queue.head_)
        | none => links
      let s := { s with links := (links.setNext ptr none).setPrev ptr none }
      let s := s.setCheck ptr none
      (s.setQueue q { queue with tail_ := tail, count_ := queue.count_ - 1 }, .pointer (some ptr))

def popFront (s : Heap) (q : Nat) (queue : TSQueue) (n : Nat) : Heap × Result :=
  if queue.head_ = queue.tail_ then s.addSList .nil
  else match s.links.next queue.head_ with
  | none => s.null.addSList .nil
  | some first =>
      let last := (walk s.links.next (n - 1) first).1
      let c := (walk s.links.next (n - 1) first).2 + 1
      let tail := if last = queue.tail_ then queue.head_ else queue.tail_
      let links := s.links.setNext queue.head_ (s.links.next last)
      let links := match links.next last with
        | some n => links.setPrev n (some queue.head_)
        | none => links
      let s := { s with links := (links.setNext last none).setPrev first none }
      let s := s.setQueue q { queue with tail_ := tail, count_ := queue.count_ - c }
      s.addSList { head_ := some first, tail_ := some last, count_ := c }

/-- The loop goes on while `first->prev != head_`. -/
def before (s : Heap) (queue : TSQueue) (p : Hook) : Option Hook :=
  if s.links.prev p = some queue.head_ then none else s.links.prev p

def popBack (s : Heap) (q : Nat) (queue : TSQueue) (n : Nat) : Heap × Result :=
  if queue.head_ = queue.tail_ then s.addSList .nil
  else
    let last := queue.tail_
    let first := (walk (s.before queue) (n - 1) last).1
    let c := (walk (s.before queue) (n - 1) last).2 + 1
    match s.links.prev first with
    | none => s.null.addSList .nil
    | some tail =>
        let s := { s with links := (s.links.setNext tail none).setPrev first none }
        let s := s.setQueue q { queue with tail_ := tail, count_ := queue.count_ - c }
        s.addSList { head_ := some first, tail_ := some last, count_ := c }

def popAll (s : Heap) (q : Nat) (queue : TSQueue) : Heap × Result :=
  if queue.head_ = queue.tail_ then s.addSList .nil
  else match s.links.next queue.head_ with
  | none => s.null.addSList .nil
  | some first =>
      let last := queue.tail_
      let links := s.links.setNext queue.head_ none
      let s := { s with links := (links.setNext last none).setPrev first none }
      let s := s.setQueue q { queue with tail_ := queue.head_, count_ := 0 }
      s.addSList { head_ := some first, tail_ := some last, count_ := queue.count_ }

/-- `eraseWithoutLock` -/
def erase (s : Heap) (q : Nat) (queue : TSQueue) (hook : Hook) (check : Bool) : Heap × Result :=
  if s.links.prev hook = none ∧ s.links.next hook = none then (s, .bool false)
  else if check = true ∧ s.check_ hook ≠ some queue.check_ then (s, .bool false)
  else
    let s := s.assert (s.links.prev hook).isSome
    let s := s.assert (hook == queue.tail_ || (s.links.next hook).isSome)
    let links := match s.links.prev hook with
      | some p => s.links.setNext p (s.links.next hook)
      | none => s.links
    let tail := if (links.next hook).isNone ∧ hook = queue.tail_ then
        (links.prev queue.tail_).getD queue.tail_ else queue.tail_
    let links := match links.next hook with
      | some n => links.setPrev n (links.prev hook)
      | none => links
    let s := { s with links := (links.setNext hook none).setPrev hook none }
    let s := s.setCheck hook none
    let s := s.assert (decide (queue.count_ > 0))
    (s.setQueue q { queue with tail_ := tail, count_ := queue.count_ - 1 }, .bool true)

/-! ## `SList` -/

/-- `erase(T* ptr)` of the `SList` `i`, which is `l`. -/
def eraseElem (s : Heap) (i : Nat) (l : SList) (ptr : Hook) : Heap :=
  -- `head_->next` and `tail_->prev`
  let s := s.assert ((s.links.prev ptr).isSome || l.head_.isSome)
  let s := s.assert ((s.links.next ptr).isSome || l.tail_.isSome)
  let head := if (s.links.prev ptr).isSome then l.head_ else l.head_.bind s.links.next
  let links := match s.links.prev ptr with
    | some p => s.links.setNext p (s.links.next ptr)
    | none => s.links
  let tail := if (links.next ptr).isSome then l.tail_ else l.tail_.bind links.prev
  let links := match links.next ptr with
    | some n => links.setPrev n (links.prev ptr)
    | none => links
  let s := { s with
    links := (links.setNext ptr none).setPrev ptr none
    deleted := s.deleted ++ [ptr] }
  s.setSList i { head_ := head, tail_ := tail, count_ := l.count_ - 1 }

/-- The loop of `clear`: the iterator has read `next` before the element is deleted. -/
def clearFrom (s : Heap) (i : Nat) : Nat → Option Hook → Heap
  | _, none => s
  | 0, some _ => s.null
  | n + 1, some ptr => match s.slists[i]? with
    | none => s
    | some l => (s.eraseElem i l ptr).clearFrom i n (s.links.next ptr)

def assign (s : Heap) (i j : Nat) (l : SList) : Heap :=
  let s := s.clearFrom i l.count_ l.head_
  match s.slists[j]? with
  | none => s
  | some other => (s.setSList i other).setSList j .nil

def append (s : Heap) (i j : Nat) (l other : SList) : Heap :=
  match other.head_ with
  | none => s
  | some head =>
      if l.empty then s.assign i j l
      else match l.tail_ with
      | none => s.null
      | some tail =>
          let s := s.link tail head
          let s := s.setSList i { l with tail_ := other.tail_, count_ := l.count_ + other.count_ }
          s.setSList j .nil

def move (s : Heap) (i : Nat) (other : SList) : Heap × Result :=
  let (s, o) := s.addSList other
  (s.setSList i .nil, o)

def cut (s : Heap) (i : Nat) (l : SList) (n : Nat) : Heap × Result :=
  match l.head_ with
  | none => s.addSList .nil
  | some head =>
      if n ≥ l.count_ then s.move i l
      else if n = 0 then s.addSList .nil
      else
        let pos := (walk s.links.next (n - 1) head).1
        match s.links.next pos with
        | none => s.null.addSList .nil
        | some rest =>
            let s := s.setSList i { l with head_ := some rest, count_ := l.count_ - n }
            let s := s.unlink pos rest
            s.addSList { head_ := some head, tail_ := some pos, count_ := n }

/-! ## Sequences of operations -/

def step (s : Heap) (op : Operation) : Option (Heap × Result) :=
  match op with
  | .newQueue => some s.newQueue
  | .newSList => some (s.addSList .nil)
  | .push q t => s.queues[q]?.map fun queue => s.push q queue (.elem t)
  | .pushAll q j => s.queues[q]?.bind fun queue => s.slists[j]?.map fun l =>
      (s.pushAll q queue j l, .nothing)
  | .pop q => s.queues[q]?.map fun queue => s.pop q queue
  | .popFront q n => s.queues[q]?.map fun queue => s.popFront q queue n
  | .popBack q n => s.queues[q]?.map fun queue => s.popBack q queue n
  | .popAll q => s.queues[q]?.map fun queue => s.popAll q queue
  | .erase q t check => s.queues[q]?.map fun queue => s.erase q queue (.elem t) check
  | .front q => s.queues[q]?.map fun queue => s.front queue
  | .next q t => s.queues[q]?.map fun queue => s.next queue (.elem t)
  | .size q => s.queues[q]?.map fun queue => (s, .count queue.count_)
  | .append i j => s.slists[i]?.bind fun l => s.slists[j]?.map fun other =>
      (s.append i j l other, .nothing)
  | .cut i n => s.slists[i]?.map fun l => s.cut i l n
  | .move i => s.slists[i]?.map fun l => s.move i l
  | .assign i j => s.slists[i]?.map fun l => (s.assign i j l, .nothing)
  | .eraseElem i t => s.slists[i]?.map fun l => (s.eraseElem i l (.elem t), .nothing)

end Heap

end CppGo.Common
