import CppGo.Common.SListRefines

/-!
# Every sequence of operations

A sequence of operations on the heap returns what the sequence returns on the lists, and
leaves the lists in the links, the ends and the counts.
-/

namespace CppGo.Common

open CppGo.Lib CppGo.Lib.Links CppGo.Lib.Machine

variable {s : Heap} {A : Lists} {op : Operation} {r' : Lists × Result} {l m : List Nat}
  {q i j : Nat}

/-! ## One operation -/

section Objects

variable {β : Type}

theorem Represents.map_queue (hr : Represents s A) (hq : A.queues[q]? = some l)
    (f : TSQueue → β) : s.queues[q]?.map f = some (f (TSQueue.of q l)) := by
  rw [hr.queue_some hq]
  rfl

theorem Represents.map_list (hr : Represents s A) (hi : A.lists[i]? = some l) (f : SList → β) :
    s.slists[i]?.map f = some (f (SList.of l)) := by
  rw [hr.slist_some hi]
  rfl

end Objects

theorem Represents.step (hr : Represents s A) (h : A.step op = some r') :
    ∃ r, s.step op = some r ∧ Simulates r r' := by
  cases op with
  | newQueue =>
      cases h
      exact ⟨_, rfl, hr.newQueue⟩
  | newSList =>
      cases h
      exact ⟨_, rfl, hr.addNil⟩
  | push q t =>
      obtain ⟨l, hq, h⟩ := Option.bind_eq_some_iff.mp h
      obtain ⟨ht, h⟩ := Option.ite_none_right_eq_some.mp h
      cases h
      exact ⟨_, hr.map_queue hq _, hr.push hq ht⟩
  | pushAll q j =>
      obtain ⟨l, hq, h⟩ := Option.bind_eq_some_iff.mp h
      obtain ⟨m, hj, rfl⟩ := Option.map_eq_some_iff.mp h
      refine ⟨(s.pushAll q (TSQueue.of q l) j (SList.of m), .nothing), ?_, hr.pushAll hq hj, rfl⟩
      dsimp only [Heap.step]
      rw [hr.queue_some hq, hr.slist_some hj]
      rfl
  | pop q =>
      obtain ⟨l, hq, rfl⟩ := Option.map_eq_some_iff.mp h
      refine ⟨_, hr.map_queue hq _, ?_⟩
      cases l with
      | nil =>
          have hpop : s.pop q (TSQueue.of q []) = (s, .pointer none) :=
            if_pos (head_eq_tail.mpr rfl)
          rw [hpop]
          exact ⟨hr, rfl⟩
      | cons t l => exact hr.pop hq
  | popFront q n =>
      obtain ⟨l, hq, h⟩ := Option.bind_eq_some_iff.mp h
      obtain ⟨hn, h⟩ := Option.ite_none_left_eq_some.mp h
      cases h
      exact ⟨_, hr.map_queue hq _, hr.popFront hq hn⟩
  | popBack q n =>
      obtain ⟨l, hq, h⟩ := Option.bind_eq_some_iff.mp h
      obtain ⟨hn, h⟩ := Option.ite_none_left_eq_some.mp h
      cases h
      exact ⟨_, hr.map_queue hq _, hr.popBack hq hn⟩
  | popAll q =>
      obtain ⟨l, hq, rfl⟩ := Option.map_eq_some_iff.mp h
      exact ⟨_, hr.map_queue hq _, hr.popAll hq⟩
  | erase q t check =>
      obtain ⟨l, hq, h⟩ := Option.bind_eq_some_iff.mp h
      refine ⟨_, hr.map_queue hq _, ?_⟩
      split at h
      next ht =>
        split at h
        next hcheck =>
          cases h
          rw [hr.erase_of_check hcheck]
          exact ⟨hr, rfl⟩
        next hcheck =>
          cases h
          exact hr.erase hq ht hcheck
      next =>
        obtain ⟨ht, h⟩ := Option.ite_none_right_eq_some.mp h
        cases h
        rw [hr.erase_of_fresh ht]
        exact ⟨hr, rfl⟩
  | front q =>
      obtain ⟨l, hq, rfl⟩ := Option.map_eq_some_iff.mp h
      exact ⟨_, hr.map_queue hq _, hr.front hq⟩
  | next q t =>
      obtain ⟨l, hq, h⟩ := Option.bind_eq_some_iff.mp h
      refine ⟨_, hr.map_queue hq _, ?_⟩
      split at h
      next ht =>
        cases h
        exact hr.next hq ht
      next =>
        obtain ⟨ht, h⟩ := Option.ite_none_right_eq_some.mp h
        cases h
        rw [hr.next_of_fresh ht]
        exact ⟨hr, rfl⟩
  | size q =>
      obtain ⟨l, hq, rfl⟩ := Option.map_eq_some_iff.mp h
      exact ⟨_, hr.map_queue hq _, hr, rfl⟩
  | append i j =>
      obtain ⟨l, hi, h⟩ := Option.bind_eq_some_iff.mp h
      obtain ⟨m, hj, h⟩ := Option.bind_eq_some_iff.mp h
      obtain ⟨hij, h⟩ := Option.ite_none_left_eq_some.mp h
      cases h
      refine ⟨(s.append i j (SList.of l) (SList.of m), .nothing), ?_, hr.append hi hj hij, rfl⟩
      dsimp only [Heap.step]
      rw [hr.slist_some hi, hr.slist_some hj]
      rfl
  | cut i n =>
      obtain ⟨l, hi, rfl⟩ := Option.map_eq_some_iff.mp h
      exact ⟨_, hr.map_list hi _, hr.cut hi⟩
  | move i =>
      obtain ⟨l, hi, rfl⟩ := Option.map_eq_some_iff.mp h
      exact ⟨_, hr.map_list hi _, hr.move hi⟩
  | assign i j =>
      obtain ⟨l, hi, h⟩ := Option.bind_eq_some_iff.mp h
      obtain ⟨m, hj, rfl⟩ := Option.map_eq_some_iff.mp h
      exact ⟨_, hr.map_list hi _, hr.assign hi hj, rfl⟩
  | eraseElem i t =>
      obtain ⟨l, hi, h⟩ := Option.bind_eq_some_iff.mp h
      obtain ⟨ht, h⟩ := Option.ite_none_right_eq_some.mp h
      cases h
      exact ⟨_, hr.map_list hi _, hr.eraseElem hi ht, rfl⟩

/-! ## The lists in the heap -/

/-- `next` leads from the node `first` over the nodes, and `prev` from `last` back. -/
structure Shows (s : Heap) (first last : Option Hook) (nodes : List Hook) : Prop where
  forward : Walk s.links.next first nodes
  backward : Walk s.links.prev last nodes.reverse

/-- The lists as the objects and the nodes show them. -/
structure HoldsLists (s : Heap) (A : Lists) : Prop where
  objects : s.queues.length = A.queues.length ∧ s.slists.length = A.lists.length
  queue : ∀ (q : Nat) (queue : TSQueue) (l : List Nat), s.queues[q]? = some queue → A.queues[q]? = some l →
    Shows s (some queue.head_) (some queue.tail_) (queue.head_ :: l.map .elem) ∧
      queue.count_ = l.length
  list : ∀ (j : Nat) (list : SList) (l : List Nat), s.slists[j]? = some list → A.lists[j]? = some l →
    Shows s list.head_ list.tail_ (l.map .elem) ∧ list.count_ = l.length
  disjoint : A.members.Nodup
  unlinked : ∀ t ∉ A.members, s.links.prev (.elem t) = none ∧ s.links.next (.elem t) = none
  freed : s.deleted = A.deleted.map .elem ∧ ∀ t ∈ A.deleted, t ∉ A.members
  asserted : s.failed = false

theorem map_flatten_sublist {f : Nat → List Nat → List Hook} {ls : List (List Nat)}
    (hf : ∀ (q : Nat) (l : List Nat), (l.map Hook.elem).Sublist (f q l)) :
    (ls.flatten.map Hook.elem).Sublist (ls.mapIdx f).flatten := by
  induction ls generalizing f with
  | nil => exact List.Sublist.refl _
  | cons l ls ih =>
      rw [List.flatten_cons, List.map_append, List.mapIdx_cons, List.flatten_cons]
      exact (hf 0 l).append (ih fun q => hf (q + 1))

theorem Represents.nodup_members (hr : Represents s A) : A.members.Nodup := by
  have hsub : (A.members.map Hook.elem).Sublist A.chains.flatten := by
    unfold Lists.members Lists.chains
    rw [List.map_append, List.flatten_append, List.map_flatten (L := A.lists)]
    apply List.Sublist.append _ (List.Sublist.refl _)
    exact map_flatten_sublist fun q l => List.sublist_cons_self _ _
  exact (hsub.nodup hr.links.nodup).of_map _

theorem Represents.holdsLists (hr : Represents s A) : HoldsLists s A where
  objects := by
    constructor
    · exact hr.length_queues
    · rw [hr.slists, List.length_map]
  queue q queue l hqueue hq := by
    obtain rfl : queue = TSQueue.of q l := by
      rw [hr.queue_some hq] at hqueue
      exact (Option.some.inj hqueue).symm
    have hchain := hr.chain_queue hq
    refine ⟨⟨hchain.walk_next, ?_⟩, rfl⟩
    rw [← getLast?_queueChain]
    exact hchain.walk_prev
  list j list l hlist hj := by
    obtain rfl : list = SList.of l := by
      rw [hr.slist_some hj] at hlist
      exact (Option.some.inj hlist).symm
    have hchain := hr.chain_list hj
    refine ⟨⟨?_, ?_⟩, rfl⟩
    · rw [SList.of, ← List.head?_map]
      exact hchain.walk_next
    · rw [SList.of, ← List.getLast?_map]
      exact hchain.walk_prev
  disjoint := hr.nodup_members
  unlinked t ht := hr.free ht
  freed := ⟨hr.deleted, hr.unused⟩
  asserted := hr.asserted

/-- Every sequence of operations that keeps to the rules. -/
theorem represents_lists {ops : List Operation} {results : List Result}
    (h : run (answering Lists.step) Free (Lists.make, []) ops = some (A, results)) :
    ∃ s, run (answering Heap.step) Free (Heap.make, []) ops = some (s, results) ∧
      HoldsLists s A := by
  have hstep : ∀ s A op r', Represents s A → A.step op = some r' →
      ∃ r, s.step op = some r ∧ Represents r.1 r'.1 ∧ r.2 = r'.2 :=
    fun s A op r' hr h => hr.step h
  obtain ⟨s, hrun, hr⟩ := run_answers hstep represents_make h
  exact ⟨s, hrun, hr.holdsLists⟩

/-- Three elements: two go through lists, where one is deleted, and the other goes back. -/
theorem represents_lists_of_three : ∃ s A,
    run (answering Heap.step) Free (Heap.make, [])
      [.newQueue, .push 0 1, .push 0 2, .push 0 3, .popBack 0 2, .cut 0 1, .append 0 1,
        .eraseElem 0 3, .pushAll 0 0, .next 0 1, .erase 0 1 true, .size 0] =
      some (s, [.object 0, .count 1, .count 2, .count 3, .object 0, .object 1, .nothing, .nothing,
        .nothing, .pointer (some (.elem 2)), .bool true, .count 1]) ∧
      A.queues = [[2]] ∧ A.lists = [[], []] ∧ A.deleted = [3] ∧ HoldsLists s A := by
  have hlists : run (answering Lists.step) Free (Lists.make, [])
      [.newQueue, .push 0 1, .push 0 2, .push 0 3, .popBack 0 2, .cut 0 1, .append 0 1,
        .eraseElem 0 3, .pushAll 0 0, .next 0 1, .erase 0 1 true, .size 0] = some (_, _) := rfl
  obtain ⟨s, hrun, hs⟩ := represents_lists hlists
  exact ⟨s, _, hrun, rfl, rfl, rfl, hs⟩

end CppGo.Common
