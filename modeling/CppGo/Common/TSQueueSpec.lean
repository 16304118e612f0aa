import CppGo.Common.TSQueue
import CppGo.Lib.Machine

/-!
# What `TSQueue` and `SList` are for

A `TSQueue` and an `SList` are lists of elements that have no element in common.
`Represents` ties the heap to the lists.
-/

namespace CppGo.Common

open CppGo.Lib CppGo.Lib.Links

/-- `check` is the queue that an element has last been put into or read from. -/
structure Lists where
  queues : List (List Nat)
  lists : List (List Nat)
  deleted : List Nat
  check : Nat → Option Nat

namespace Lists

def make : Lists := { queues := [], lists := [], deleted := [], check := fun _ => none }

def members (A : Lists) : List Nat := A.queues.flatten ++ A.lists.flatten

def fresh (A : Lists) (t : Nat) : Bool := decide (t ∉ A.members) && decide (t ∉ A.deleted)

def setQueue (A : Lists) (q : Nat) (l : List Nat) : Lists := { A with queues := A.queues.set q l }

def setList (A : Lists) (j : Nat) (l : List Nat) : Lists := { A with lists := A.lists.set j l }

def addList (A : Lists) (l : List Nat) : Lists × Result :=
  ({ A with lists := A.lists ++ [l] }, .object A.lists.length)

def setCheck (A : Lists) (t : Nat) (check : Option Nat) : Lists :=
  { A with check := Function.update A.check t check }

def delete (A : Lists) (l : List Nat) : Lists := { A with deleted := A.deleted ++ l }

def pointer (t : Option Nat) : Result := .pointer (t.map Hook.elem)

/-- What is read gets the mark of the queue. -/
def read (A : Lists) (q : Nat) : Option Nat → Lists × Result
  | none => (A, pointer none)
  | some t => (A.setCheck t (some q), pointer (some t))

def after (t : Nat) : List Nat → Option Nat
  | [] => none
  | a :: l => if a = t then l.head? else after t l

/-- The operations on lists, where the caller keeps to the rules: it puts in only elements
that are in no list, erases and reads elements of this queue or of none, pops at least one
element, and does not append a list to itself. -/
def step (A : Lists) (op : Operation) : Option (Lists × Result) :=
  match op with
  | .newQueue => some ({ A with queues := A.queues ++ [[]] }, .object A.queues.length)
  | .newSList => some (A.addList [])
  | .push q t => A.queues[q]?.bind fun l =>
      if A.fresh t then some ((A.setQueue q (l ++ [t])).setCheck t (some q), .count (l.length + 1))
      else none
  | .pushAll q j => A.queues[q]?.bind fun l => A.lists[j]?.map fun m =>
      ((A.setQueue q (l ++ m)).setList j [], .nothing)
  | .pop q => A.queues[q]?.map fun
    | [] => (A, pointer none)
    | t :: l => ((A.setQueue q l).setCheck t none, pointer (some t))
  | .popFront q n => A.queues[q]?.bind fun l =>
      if n = 0 then none else some ((A.setQueue q (l.drop n)).addList (l.take n))
  | .popBack q n => A.queues[q]?.bind fun l =>
      if n = 0 then none
      else some ((A.setQueue q (l.take (l.length - n))).addList (l.drop (l.length - n)))
  | .popAll q => A.queues[q]?.map fun l => (A.setQueue q []).addList l
  | .erase q t check => A.queues[q]?.bind fun l =>
      if t ∈ l then
        if check = true ∧ A.check t ≠ some q then some (A, .bool false)
        else some ((A.setQueue q (l.erase t)).setCheck t none, .bool true)
      else if A.fresh t then some (A, .bool false) else none
  | .front q => A.queues[q]?.map fun l => A.read q l.head?
  | .next q t => A.queues[q]?.bind fun l =>
      if t ∈ l then some (A.read q (after t l))
      else if A.fresh t then some (A, pointer none) else none
  | .size q => A.queues[q]?.map fun l => (A, .count l.length)
  | .append i j => A.lists[i]?.bind fun l => A.lists[j]?.bind fun m =>
      if i = j ∧ m ≠ [] then none else some ((A.setList i (l ++ m)).setList j [], .nothing)
  | .cut i n => A.lists[i]?.map fun l => (A.setList i (l.drop n)).addList (l.take n)
  | .move i => A.lists[i]?.map fun l => (A.setList i []).addList l
  | .assign i j => A.lists[i]?.bind fun l => A.lists[j]?.map fun m =>
      (((A.delete l).setList i m).setList j [], .nothing)
  | .eraseElem i t => A.lists[i]?.bind fun l =>
      if t ∈ l then some ((A.delete [t]).setList i (l.erase t), .nothing) else none

end Lists

/-! ## The heap of the lists -/

def TSQueue.of (q : Nat) (l : List Nat) : TSQueue :=
  { head_ := .head q
    tail_ := (l.getLast?.map Hook.elem).getD (.head q)
    count_ := l.length
    check_ := q }

def SList.of (l : List Nat) : SList :=
  { head_ := l.head?.map Hook.elem, tail_ := l.getLast?.map Hook.elem, count_ := l.length }

def queueChain (q : Nat) (l : List Nat) : List Hook := .head q :: l.map .elem

def Lists.chains (A : Lists) : List (List Hook) :=
  A.queues.mapIdx queueChain ++ A.lists.map (List.map .elem)

/-- What the objects say about the lists. -/
structure Records (s : Heap) (A : Lists) : Prop where
  queue : ∀ q, s.queues[q]? = A.queues[q]?.map (TSQueue.of q)
  slists : s.slists = A.lists.map SList.of
  check : ∀ t, s.check_ (.elem t) = A.check t
  deleted : s.deleted = A.deleted.map .elem
  unused : ∀ t ∈ A.deleted, t ∉ A.members
  asserted : s.failed = false

structure Represents (s : Heap) (A : Lists) : Prop extends Records s A where
  links : Rep s.links A.chains

theorem represents_make : Represents Heap.make Lists.make where
  queue _ := rfl
  slists := rfl
  check _ := rfl
  deleted := rfl
  unused _ ht := absurd ht List.not_mem_nil
  asserted := rfl
  links := rep_empty

/-! ## One list is changed -/

variable {A : Lists} {h : Links Hook} {l m pre x post : List Nat} {q i j t : Nat} {a b : Hook}

theorem mem_flatten_chains : a ∈ A.chains.flatten ↔
    (∃ q < A.queues.length, a = .head q) ∨ ∃ t ∈ A.members, a = .elem t := by
  unfold Lists.chains Lists.members
  rw [List.flatten_append, List.mem_append]
  constructor
  · rintro (ha | ha)
    · obtain ⟨c, hc, ha⟩ := List.mem_flatten.mp ha
      obtain ⟨q, hq, rfl⟩ := List.mem_mapIdx.mp hc
      rcases List.mem_cons.mp ha with rfl | ha
      · exact .inl ⟨q, hq, rfl⟩
      · obtain ⟨t, ht, rfl⟩ := List.mem_map.mp ha
        exact .inr ⟨t, List.mem_append_left _ (List.mem_flatten.mpr ⟨_, List.getElem_mem hq, ht⟩),
          rfl⟩
    · obtain ⟨c, hc, ha⟩ := List.mem_flatten.mp ha
      obtain ⟨l, hl, rfl⟩ := List.mem_map.mp hc
      obtain ⟨t, ht, rfl⟩ := List.mem_map.mp ha
      exact .inr ⟨t, List.mem_append_right _ (List.mem_flatten.mpr ⟨l, hl, ht⟩), rfl⟩
  · rintro (⟨q, hq, rfl⟩ | ⟨t, ht, rfl⟩)
    · left
      apply List.mem_flatten.mpr
      exact ⟨_, List.mem_mapIdx.mpr ⟨q, hq, rfl⟩, List.mem_cons_self⟩
    · rcases List.mem_append.mp ht with ht | ht
      · obtain ⟨l, hl, ht⟩ := List.mem_flatten.mp ht
        obtain ⟨q, hq, rfl⟩ := List.getElem_of_mem hl
        left
        apply List.mem_flatten.mpr
        exact ⟨_, List.mem_mapIdx.mpr ⟨q, hq, rfl⟩, List.mem_cons_of_mem _ (List.mem_map_of_mem ht)⟩
      · obtain ⟨l, hl, ht⟩ := List.mem_flatten.mp ht
        right
        apply List.mem_flatten.mpr
        exact ⟨_, List.mem_map_of_mem hl, List.mem_map_of_mem ht⟩

theorem elem_not_mem_chains (ht : t ∉ A.members) : Hook.elem t ∉ A.chains.flatten := by
  rw [mem_flatten_chains]
  rintro (⟨q, -, hq⟩ | ⟨u, hu, heq⟩)
  · cases hq
  · cases heq
    exact ht hu

section Positions

theorem chains_queue (hq : A.queues[q]? = some l) : A.chains[q]? = some (queueChain q l) := by
  have hlt := (List.getElem?_eq_some_iff.mp hq).1
  unfold Lists.chains
  rw [List.getElem?_append_left (by simpa using hlt), List.getElem?_mapIdx, hq]
  rfl

theorem chains_list (hj : A.lists[j]? = some m) :
    A.chains[A.queues.length + j]? = some (m.map .elem) := by
  unfold Lists.chains
  rw [List.getElem?_append_right (by simp), List.length_mapIdx, Nat.add_sub_cancel_left,
    List.getElem?_map, hj]
  rfl

theorem chains_setQueue (hq : A.queues[q]? = some l) (l' : List Nat) :
    (A.setQueue q l').chains = A.chains.set q (queueChain q l') := by
  have hlt := (List.getElem?_eq_some_iff.mp hq).1
  unfold Lists.chains Lists.setQueue
  rw [List.mapIdx_set, List.set_append_left _ _ (by simpa using hlt)]

theorem chains_setList (l' : List Nat) :
    (A.setList j l').chains = A.chains.set (A.queues.length + j) (l'.map .elem) := by
  unfold Lists.chains Lists.setList
  rw [List.map_set, List.set_append_right _ _ (by simp), List.length_mapIdx,
    Nat.add_sub_cancel_left]

theorem chains_addList (A : Lists) (l : List Nat) :
    (A.addList l).1.chains.Perm (l.map .elem :: A.chains) := by
  unfold Lists.chains Lists.addList
  rw [List.map_append, ← List.append_assoc]
  exact List.perm_append_singleton _ _

theorem getLast?_queueChain (q : Nat) (l : List Nat) :
    (queueChain q l).getLast? = some (TSQueue.of q l).tail_ := by
  unfold queueChain TSQueue.of
  rw [List.getLast?_cons, List.getLast?_map]

end Positions

/-! ## The links of the operations -/

theorem rep_newQueue (hr : Rep h A.chains) :
    Rep h { A with queues := A.queues ++ [[]] }.chains := by
  have hout : Hook.head A.queues.length ∉ A.chains.flatten := by
    rw [mem_flatten_chains]
    rintro (⟨q, hq, heq⟩ | ⟨t, -, heq⟩)
    · cases heq
      omega
    · cases heq
  apply ((rep_singleton_cons hout).mpr hr).perm
  unfold Lists.chains
  rw [List.mapIdx_concat, List.append_assoc]
  exact (List.perm_middle).symm

theorem rep_addNil (hr : Rep h A.chains) : Rep h (A.addList []).1.chains :=
  (rep_nil_cons.mpr hr).perm (chains_addList A []).symm

theorem rep_push (hr : Rep h A.chains) (hq : A.queues[q]? = some l) (ht : t ∉ A.members) :
    Rep (h.link (TSQueue.of q l).tail_ (.elem t)) (A.setQueue q (l ++ [t])).chains := by
  obtain ⟨rest, hperm, hset⟩ := perm_set (chains_queue hq)
  have hsingle := (rep_singleton_cons (elem_not_mem_chains ht)).mpr hr
  have hjoin := (hsingle.perm ((hperm.cons _).trans (.swap _ _ _))).link
    (getLast?_queueChain q l) rfl
  apply hjoin.perm
  rw [chains_setQueue hq]
  have hchain : queueChain q l ++ [Hook.elem t] = queueChain q (l ++ [t]) := by
    unfold queueChain
    rw [List.map_append]
    rfl
  rw [hchain]
  exact (hset _).symm

theorem rep_pushAll (hr : Rep h A.chains) (hq : A.queues[q]? = some l)
    (hj : A.lists[j]? = some m) (hb : (m.map Hook.elem).head? = some b) :
    Rep (h.link (TSQueue.of q l).tail_ b) ((A.setQueue q (l ++ m)).setList j []).chains := by
  have hlt := (List.getElem?_eq_some_iff.mp hq).1
  obtain ⟨rest, hperm, hset⟩ := perm_set_set (by omega) (chains_queue hq) (chains_list hj)
  have hjoin := (hr.perm hperm).link (getLast?_queueChain q l) hb
  apply (rep_nil_cons.mpr hjoin).perm
  rw [chains_setList, chains_setQueue hq]
  have hlength : (A.setQueue q (l ++ m)).queues.length = A.queues.length := List.length_set
  have hchain : queueChain q l ++ m.map Hook.elem = queueChain q (l ++ m) := by
    unfold queueChain
    rw [List.map_append]
    rfl
  rw [hlength, hchain]
  exact (List.Perm.swap _ _ _).trans (hset _ _).symm

theorem rep_append (hr : Rep h A.chains) (hij : i ≠ j) (hi : A.lists[i]? = some l)
    (hj : A.lists[j]? = some m) (ha : (l.map Hook.elem).getLast? = some a)
    (hb : (m.map Hook.elem).head? = some b) :
    Rep (h.link a b) ((A.setList i (l ++ m)).setList j []).chains := by
  obtain ⟨rest, hperm, hset⟩ := perm_set_set (by omega) (chains_list hi) (chains_list hj)
  have hjoin := (hr.perm hperm).link ha hb
  apply (rep_nil_cons.mpr hjoin).perm
  rw [chains_setList, chains_setList, ← List.map_append]
  exact (List.Perm.swap _ _ _).trans (hset _ _).symm

/-- The list `j` goes into the place of `i`, which has been emptied. -/
theorem rep_exchange (hr : Rep h A.chains) (hij : i ≠ j) (hi : A.lists[i]? = some [])
    (hj : A.lists[j]? = some m) : Rep h ((A.setList i m).setList j []).chains := by
  obtain ⟨rest, hperm, hset⟩ := perm_set_set (by omega) (chains_list hi) (chains_list hj)
  apply (hr.perm hperm).perm
  rw [chains_setList, chains_setList]
  exact (List.Perm.swap _ _ _).trans (hset _ _).symm

theorem rep_move (hr : Rep h A.chains) (hi : A.lists[i]? = some l) :
    Rep h ((A.setList i []).addList l).1.chains := by
  obtain ⟨rest, hperm, hset⟩ := perm_set (chains_list hi)
  apply (rep_nil_cons.mpr (hr.perm hperm)).perm
  apply List.Perm.trans _ (chains_addList _ _).symm
  rw [chains_setList]
  exact (List.Perm.swap _ _ _).trans ((hset _).symm.cons _)

section Excise

variable {first last : Hook}

variable (pre x) in
theorem rep_popQueue (hr : Rep h A.chains) (hq : A.queues[q]? = some (pre ++ x ++ post))
    (hfirst : (x.map Hook.elem).head? = some first)
    (hlast : (x.map Hook.elem).getLast? = some last) :
    Rep (h.excise first last) ((A.setQueue q (pre ++ post)).addList x).1.chains := by
  obtain ⟨rest, hperm, hset⟩ := perm_set (chains_queue hq)
  have hchain : queueChain q (pre ++ x ++ post) =
      queueChain q pre ++ x.map Hook.elem ++ post.map Hook.elem := by
    simp [queueChain]
  rw [hchain] at hperm
  apply ((hr.perm hperm).excise hfirst hlast).perm
  have hchain' : queueChain q pre ++ post.map Hook.elem = queueChain q (pre ++ post) := by
    simp [queueChain]
  rw [hchain']
  apply List.Perm.trans _ (chains_addList _ _).symm
  rw [chains_setQueue hq]
  exact (List.Perm.swap _ _ _).trans ((hset _).symm.cons _)

variable (pre x) in
theorem rep_cut (hr : Rep h A.chains) (hi : A.lists[i]? = some (pre ++ x ++ post))
    (hfirst : (x.map Hook.elem).head? = some first)
    (hlast : (x.map Hook.elem).getLast? = some last) :
    Rep (h.excise first last) ((A.setList i (pre ++ post)).addList x).1.chains := by
  obtain ⟨rest, hperm, hset⟩ := perm_set (chains_list hi)
  rw [List.map_append, List.map_append] at hperm
  apply ((hr.perm hperm).excise hfirst hlast).perm
  apply List.Perm.trans _ (chains_addList _ _).symm
  rw [chains_setList, List.map_append]
  exact (List.Perm.swap _ _ _).trans ((hset _).symm.cons _)

theorem rep_forget (hr : Rep h (A.addList [t]).1.chains) : Rep h A.chains := by
  have hperm := hr.perm (chains_addList A [t])
  apply (rep_singleton_cons ?_).mp hperm
  have hnodup : (Hook.elem t :: A.chains.flatten).Nodup := hperm.nodup
  exact (List.nodup_cons.mp hnodup).1

end Excise

end CppGo.Common
