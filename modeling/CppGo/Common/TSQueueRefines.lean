import CppGo.Common.TSQueueSpec
import CppGo.Lib.Observer

/-!
# `TSQueue` and `SList` represent lists

Each operation on the heap has the effect of the operation on the lists: its assertions
hold, and what it does to the links is to join two chains or to take a piece out of one.
-/

namespace CppGo.Common

open CppGo.Lib CppGo.Lib.Links

variable {s : Heap} {A : Lists} {h : Links Hook} {l m pre x post : List Nat} {q i j t : Nat}
  {a b p first last hook : Hook}

/-! ## The links -/

section Links

/-- What `erase` writes. -/
theorem excise_self (hprev : h.prev hook ≠ some hook) :
    ((let links := match h.prev hook with
        | some p => h.setNext p (h.next hook)
        | none => h
      match links.next hook with
        | some n => links.setPrev n (links.prev hook)
        | none => links).setNext hook none).setPrev hook none = h.excise hook hook := by
  unfold excise bridge
  cases hp : h.prev hook with
  | none => cases hq : h.next hook <;> simp [hq, hp, setNext, setPrev]
  | some p =>
      have hne : hook ≠ p := by
        rintro rfl
        exact hprev hp
      cases hq : h.next hook <;> simp [hq, hp, hne, setNext, setPrev]

/-- What `pop_front` writes. -/
theorem excise_of_prev (hprev : h.prev first = some p) (hne : last ≠ p) :
    ((let links := h.setNext p (h.next last)
      match links.next last with
        | some n => links.setPrev n (some p)
        | none => links).setNext last none).setPrev first none = h.excise first last := by
  unfold excise bridge
  rw [hprev]
  cases hq : h.next last <;> simp [hq, hne, setNext, setPrev]

/-- What `pop_all` writes. -/
theorem excise_of_next (hprev : h.prev first = some p) (hnext : h.next last = none) :
    ((h.setNext p none).setNext last none).setPrev first none = h.excise first last := by
  unfold excise bridge
  rw [hprev, hnext]
  rfl

theorem setNext_eq_self (hnext : h.next a = none) : h.setNext a none = h := by
  unfold setNext
  rw [← hnext, Function.update_eq_self]

/-- What `pop_back` writes. -/
theorem excise_of_last (hprev : h.prev first = some p) (hnext : h.next last = none) :
    (h.setNext p none).setPrev first none = h.excise first last := by
  have hself : (h.setNext p none).setNext last none = h.setNext p none := by
    apply setNext_eq_self
    rw [next_setNext, hnext, ite_self]
  rw [← excise_of_next hprev hnext, hself]

/-- What `cut` writes. -/
theorem excise_of_head (hprev : h.prev first = none) (hnext : h.next last = some b) :
    (h.setNext last none).setPrev b none = h.excise first last := by
  unfold excise bridge
  rw [hprev, hnext]
  have hself : Function.update (Function.update h.prev b none) first none =
      Function.update h.prev b none := by
    have hfirst : Function.update h.prev b none first = none := by
      rw [Function.update_apply, hprev]
      split <;> rfl
    have hself := Function.update_eq_self first (Function.update h.prev b none)
    rwa [hfirst] at hself
  unfold setPrev setNext
  rw [hself]

end Links

/-! ## Walks -/

theorem walk_spec {f : Hook → Option Hook} {l : List Hook} (hw : Walk f (some a) (a :: l))
    (k : Nat) : ((a :: l).take (k + 1)).getLast? = some (Heap.walk f k a).1 ∧
      ((a :: l).take (k + 1)).length = (Heap.walk f k a).2 + 1 := by
  induction k generalizing a l with
  | zero => simp [Heap.walk]
  | succ k ih =>
      obtain - | hw := hw
      cases hf : f a with
      | none =>
          rw [hf] at hw
          cases hw
          simp [Heap.walk, hf]
      | some b =>
          rw [hf] at hw
          obtain ⟨l', rfl⟩ : ∃ l', l = b :: l' := by
            cases hw
            exact ⟨_, rfl⟩
          obtain ⟨hlast, hlength⟩ := ih hw
          rw [List.take_succ_cons, Heap.walk, hf]
          dsimp only
          constructor
          · rw [List.getLast?_cons, hlast]
            rfl
          · rw [List.length_cons, hlength]

theorem walk_elem {f : Hook → Option Hook} {n : Nat}
    (hw : Walk f (some (.elem t)) ((t :: l).map .elem)) (hn : n ≠ 0) :
    ∃ u, ((t :: l).take n).getLast? = some u ∧ (Heap.walk f (n - 1) (.elem t)).1 = .elem u ∧
      (Heap.walk f (n - 1) (.elem t)).2 + 1 = ((t :: l).take n).length := by
  obtain ⟨hlast, hlength⟩ := walk_spec hw (n - 1)
  rw [Nat.sub_add_cancel (by omega), ← List.map_cons, ← List.map_take] at hlast hlength
  rw [List.getLast?_map] at hlast
  obtain ⟨u, hu, heq⟩ := Option.map_eq_some_iff.mp hlast
  rw [List.length_map] at hlength
  exact ⟨u, hu, heq.symm, hlength.symm⟩

/-! ## What the heap of the lists looks like -/

section Represents

theorem Represents.queue_some (h : Represents s A) (hq : A.queues[q]? = some l) :
    s.queues[q]? = some (TSQueue.of q l) := by
  rw [h.queue, hq]
  rfl

theorem Represents.slist_some (h : Represents s A) (hj : A.lists[j]? = some l) :
    s.slists[j]? = some (SList.of l) := by
  rw [h.slists, List.getElem?_map, hj]
  rfl

theorem Represents.chain_queue (h : Represents s A) (hq : A.queues[q]? = some l) :
    Chain s.links none (queueChain q l) none :=
  h.links.chain _ (List.mem_of_getElem? (chains_queue hq))

theorem Represents.chain_list (h : Represents s A) (hj : A.lists[j]? = some l) :
    Chain s.links none (l.map .elem) none :=
  h.links.chain _ (List.mem_of_getElem? (chains_list hj))

theorem Represents.nodup_queue (h : Represents s A) (hq : A.queues[q]? = some l) : l.Nodup := by
  have hchain := (List.nodup_flatten.mp h.links.nodup).1 _ (List.mem_of_getElem? (chains_queue hq))
  exact (List.nodup_cons.mp hchain).2.of_map _

theorem Represents.nodup_list (h : Represents s A) (hj : A.lists[j]? = some l) : l.Nodup := by
  have hchain := (List.nodup_flatten.mp h.links.nodup).1 _ (List.mem_of_getElem? (chains_list hj))
  exact hchain.of_map _

theorem Represents.free (h : Represents s A) (ht : t ∉ A.members) :
    s.links.prev (.elem t) = none ∧ s.links.next (.elem t) = none :=
  h.links.free _ (elem_not_mem_chains ht)

theorem Represents.next_head (h : Represents s A) (hq : A.queues[q]? = some l) :
    s.links.next (.head q) = l.head?.map .elem := by
  have hchain := (h.chain_queue hq).2.1
  rw [hchain, Option.or_none, List.head?_map]

theorem Represents.next_tail (h : Represents s A) (hq : A.queues[q]? = some l) :
    s.links.next (TSQueue.of q l).tail_ = none :=
  (h.chain_queue hq).next_last (getLast?_queueChain q l)

end Represents

/-! ## Representing the lists after an operation -/

theorem mem_members_setQueue {l' : List Nat} (ht : t ∈ (A.setQueue q l').members) :
    t ∈ l' ∨ t ∈ A.members := by
  rcases List.mem_append.mp ht with ht | ht
  · obtain ⟨m, hm, htm⟩ := List.mem_flatten.mp ht
    rcases List.mem_or_eq_of_mem_set hm with hm | hm
    · exact .inr (List.mem_append_left _ (List.mem_flatten.mpr ⟨m, hm, htm⟩))
    · exact .inl (hm ▸ htm)
  · exact .inr (List.mem_append_right _ ht)

theorem mem_members_setList {l' : List Nat} (ht : t ∈ (A.setList j l').members) :
    t ∈ l' ∨ t ∈ A.members := by
  rcases List.mem_append.mp ht with ht | ht
  · exact .inr (List.mem_append_left _ ht)
  · obtain ⟨m, hm, htm⟩ := List.mem_flatten.mp ht
    rcases List.mem_or_eq_of_mem_set hm with hm | hm
    · exact .inr (List.mem_append_right _ (List.mem_flatten.mpr ⟨m, hm, htm⟩))
    · exact .inl (hm ▸ htm)

theorem mem_members_addList (ht : t ∈ (A.addList l).1.members) : t ∈ l ∨ t ∈ A.members := by
  rcases List.mem_append.mp ht with ht | ht
  · exact .inr (List.mem_append_left _ ht)
  · obtain ⟨m, hm, ht⟩ := List.mem_flatten.mp ht
    rcases List.mem_append.mp hm with hm | hm
    · exact .inr (List.mem_append_right _ (List.mem_flatten.mpr ⟨m, hm, ht⟩))
    · rw [List.mem_singleton.mp hm] at ht
      exact .inl ht

theorem mem_members_queue (hq : A.queues[q]? = some l) (ht : t ∈ l) : t ∈ A.members :=
  List.mem_append_left _ (List.mem_flatten.mpr ⟨l, List.mem_of_getElem? hq, ht⟩)

theorem mem_members_list (hj : A.lists[j]? = some l) (ht : t ∈ l) : t ∈ A.members :=
  List.mem_append_right _ (List.mem_flatten.mpr ⟨l, List.mem_of_getElem? hj, ht⟩)

namespace Records

variable {l' : List Nat}

theorem withLinks (hr : Records s A) (h : Links Hook) : Records { s with links := h } A :=
  ⟨hr.queue, hr.slists, hr.check, hr.deleted, hr.unused, hr.asserted⟩

theorem setQueue (hr : Records s A) (hq : A.queues[q]? = some l) {queue : TSQueue}
    (hqueue : queue = TSQueue.of q l') (hunused : ∀ t ∈ l', t ∉ A.deleted) :
    Records (s.setQueue q queue) (A.setQueue q l') where
  queue q' := by
    rw [hqueue]
    have hlt' := (List.getElem?_eq_some_iff.mp hq).1
    have hlt : q < s.queues.length := by
      by_contra hle
      have hnone := hr.queue q
      rw [List.getElem?_eq_none (by omega), hq] at hnone
      cases hnone
    show (s.queues.set q _)[q']? = (A.queues.set q l')[q']?.map _
    by_cases hqq : q = q'
    · subst hqq
      rw [List.getElem?_set_self hlt, List.getElem?_set_self hlt']
      rfl
    · rw [List.getElem?_set_ne hqq, List.getElem?_set_ne hqq]
      exact hr.queue q'
  slists := hr.slists
  check := hr.check
  deleted := hr.deleted
  unused t ht hin := by
    rcases mem_members_setQueue hin with hin | hin
    · exact hunused t hin ht
    · exact hr.unused t ht hin
  asserted := hr.asserted

theorem setList (hr : Records s A) {list : SList} (hlist : list = SList.of l')
    (hunused : ∀ t ∈ l', t ∉ A.deleted) :
    Records (s.setSList j list) (A.setList j l') where
  queue := hr.queue
  slists := by
    rw [hlist]
    show s.slists.set j _ = (A.lists.set j l').map _
    rw [hr.slists, List.map_set]
  check := hr.check
  deleted := hr.deleted
  unused t ht hin := by
    rcases mem_members_setList hin with hin | hin
    · exact hunused t hin ht
    · exact hr.unused t ht hin
  asserted := hr.asserted

theorem addList (hr : Records s A) {list : SList} (hlist : list = SList.of l)
    (hunused : ∀ t ∈ l, t ∉ A.deleted) : Records (s.addSList list).1 (A.addList l).1 where
  queue := hr.queue
  slists := by
    rw [hlist]
    show s.slists ++ _ = (A.lists ++ [l]).map _
    rw [hr.slists, List.map_append]
    rfl
  check := hr.check
  deleted := hr.deleted
  unused t ht hin := by
    rcases mem_members_addList hin with hin | hin
    · exact hunused t hin ht
    · exact hr.unused t ht hin
  asserted := hr.asserted

theorem setCheck (hr : Records s A) (t : Nat) (check : Option Nat) :
    Records (s.setCheck (.elem t) check) (A.setCheck t check) where
  queue := hr.queue
  slists := hr.slists
  check u := by
    show Function.update s.check_ (.elem t) check (.elem u) = Function.update A.check t check u
    by_cases hu : u = t
    · rw [hu, Function.update_self, Function.update_self]
    · rw [Function.update_of_ne hu, Function.update_of_ne (fun heq => hu (Hook.elem.inj heq))]
      exact hr.check u
  deleted := hr.deleted
  unused := hr.unused
  asserted := hr.asserted

end Records

/-! ## The operations of `TSQueue` -/

/-- An operation on the heap has the effect and the result of the one on the lists. -/
def Simulates (r : Heap × Result) (r' : Lists × Result) : Prop :=
  Represents r.1 r'.1 ∧ r.2 = r'.2

theorem assert_of (s : Heap) {cond : Bool} (hcond : cond = true) : s.assert cond = s :=
  if_pos hcond

theorem link_of (hnext : s.links.next a = none) (hprev : s.links.prev b = none) :
    s.link a b = { s with links := s.links.link a b } := by
  unfold Heap.link
  dsimp only
  rw [assert_of s (by rw [hnext]; rfl), assert_of s (by rw [hprev]; rfl)]
  rfl

theorem setQueue_self (hq : A.queues[q]? = some l) : A.setQueue q l = A := by
  obtain ⟨hlt, rfl⟩ := List.getElem?_eq_some_iff.mp hq
  unfold Lists.setQueue
  rw [List.set_getElem_self]

theorem setList_self (hj : A.lists[j]? = some l) : A.setList j l = A := by
  obtain ⟨hlt, rfl⟩ := List.getElem?_eq_some_iff.mp hj
  unfold Lists.setList
  rw [List.set_getElem_self]

theorem queue_eq {tail : Hook} {count : Nat} (htail : tail = (TSQueue.of q m).tail_)
    (hcount : count = m.length) :
    { TSQueue.of q l with tail_ := tail, count_ := count } = TSQueue.of q m := by
  rw [htail, hcount]
  rfl

theorem Represents.unused_queue (hr : Represents s A) (hq : A.queues[q]? = some l)
    (ht : t ∈ l) : t ∉ A.deleted :=
  fun hin => hr.unused t hin (mem_members_queue hq ht)

theorem Represents.unused_list (hr : Represents s A) (hj : A.lists[j]? = some l)
    (ht : t ∈ l) : t ∉ A.deleted :=
  fun hin => hr.unused t hin (mem_members_list hj ht)

theorem fresh_iff : A.fresh t = true ↔ t ∉ A.members ∧ t ∉ A.deleted := by
  simp [Lists.fresh]

theorem Records.length_queues (hr : Records s A) : s.queues.length = A.queues.length := by
  apply Nat.le_antisymm
  · by_contra hlt
    have hnone := hr.queue A.queues.length
    rw [List.getElem?_eq_getElem (by omega), List.getElem?_eq_none (Nat.le_refl _)] at hnone
    cases hnone
  · by_contra hlt
    have hnone := hr.queue s.queues.length
    rw [List.getElem?_eq_none (Nat.le_refl _), List.getElem?_eq_getElem (by omega)] at hnone
    cases hnone

theorem Represents.newQueue (hr : Represents s A) :
    Simulates s.newQueue ({ A with queues := A.queues ++ [[]] }, .object A.queues.length) := by
  have hlength := hr.length_queues
  refine ⟨⟨⟨fun q => ?_, hr.slists, hr.check, hr.deleted, fun t ht hin => ?_, hr.asserted⟩,
    rep_newQueue hr.links⟩, congrArg Result.object hlength⟩
  · show (s.queues ++ [_])[q]? = (A.queues ++ [[]])[q]?.map _
    rcases Nat.lt_trichotomy q A.queues.length with hlt | rfl | hgt
    · rw [List.getElem?_append_left (by omega), List.getElem?_append_left hlt]
      exact hr.queue q
    · rw [← hlength, List.getElem?_concat_length, hlength, List.getElem?_concat_length]
      rfl
    · rw [List.getElem?_eq_none (by simp; omega), List.getElem?_eq_none (by simp; omega)]
      rfl
  · apply hr.unused t ht
    simpa [Lists.members] using hin

theorem Represents.push (hr : Represents s A) (hq : A.queues[q]? = some l)
    (ht : A.fresh t = true) : Simulates (s.push q (TSQueue.of q l) (.elem t))
      ((A.setQueue q (l ++ [t])).setCheck t (some q), .count (l.length + 1)) := by
  obtain ⟨hout, hunused⟩ := fresh_iff.mp ht
  obtain ⟨hprev, hnext⟩ := hr.free hout
  have hself : (s.links.link (TSQueue.of q l).tail_ (.elem t)).setNext (.elem t) none =
      s.links.link (TSQueue.of q l).tail_ (.elem t) := by
    apply setNext_eq_self
    have hne : Hook.elem t ≠ (TSQueue.of q l).tail_ := by
      intro heq
      have hmem : Hook.elem t ∈ queueChain q l :=
        heq ▸ List.mem_of_getLast? (getLast?_queueChain q l)
      rcases List.mem_cons.mp hmem with heq | hmem
      · cases heq
      · obtain ⟨u, hu, heq⟩ := List.mem_map.mp hmem
        cases heq
        exact hout (mem_members_queue hq hu)
    simp [Links.link, hne, hnext]
  unfold Heap.push
  dsimp only
  rw [assert_of s (by rw [hnext]; rfl), assert_of s (by rw [hprev]; rfl),
    link_of (hr.next_tail hq) hprev, hself]
  refine ⟨⟨?_, rep_push hr.links hq hout⟩, rfl⟩
  apply ((hr.toRecords.withLinks _).setCheck t (some q)).setQueue hq
  · apply queue_eq
    · simp [TSQueue.of]
    · simp [TSQueue.of]
  · intro u hu
    rcases List.mem_append.mp hu with hu | hu
    · exact hr.unused_queue hq hu
    · rw [List.mem_singleton.mp hu]
      exact hunused

theorem Represents.pushAll (hr : Represents s A) (hq : A.queues[q]? = some l)
    (hj : A.lists[j]? = some m) :
    Represents (s.pushAll q (TSQueue.of q l) j (SList.of m))
      ((A.setQueue q (l ++ m)).setList j []) := by
  cases m with
  | nil =>
      rw [List.append_nil, setQueue_self hq, setList_self hj]
      exact hr
  | cons t m =>
      have hchain := hr.chain_list hj
      obtain ⟨u, hu⟩ : ∃ u, (t :: m).getLast? = some u := ⟨_, List.getLast?_eq_some_getLast (by simp)⟩
      have hlast : ((t :: m).map Hook.elem).getLast? = some (.elem u) := by
        rw [List.getLast?_map, hu]
        rfl
      have hprev : s.links.prev (.elem t) = none := hchain.prev_head rfl
      have hnext : s.links.next (.elem u) = none := hchain.next_last hlast
      have hlist : SList.of (t :: m) =
          { head_ := some (.elem t), tail_ := some (.elem u), count_ := (t :: m).length } := by
        unfold SList.of
        rw [hu]
        rfl
      rw [hlist]
      unfold Heap.pushAll
      dsimp only
      rw [assert_of s (by rw [hprev]; rfl), assert_of s (by rw [hnext]; rfl),
        link_of (hr.next_tail hq) hprev]
      refine ⟨?_, rep_pushAll hr.links hq hj rfl⟩
      apply Records.setList
      · apply (hr.toRecords.withLinks _).setQueue hq
        · apply queue_eq
          · unfold TSQueue.of
            rw [List.getLast?_append, hu]
            rfl
          · simp [TSQueue.of]
        · intro v hv
          rcases List.mem_append.mp hv with hv | hv
          · exact hr.unused_queue hq hv
          · exact hr.unused_list hj hv
      · rfl
      · exact fun _ h => absurd h List.not_mem_nil

/-- An empty queue has its own hook at both ends. -/
theorem head_eq_tail : (TSQueue.of q l).head_ = (TSQueue.of q l).tail_ ↔ l = [] := by
  unfold TSQueue.of
  cases hlast : l.getLast? with
  | none => simpa using hlast
  | some t =>
      have hne : l ≠ [] := by
        rintro rfl
        cases hlast
      simp [hne]

theorem tail_of_getLast? (hlast : l.getLast? = some t) : (TSQueue.of q l).tail_ = .elem t := by
  unfold TSQueue.of
  rw [hlast]
  rfl

variable (x) in
theorem tail_of_front (hnodup : (x ++ post).Nodup) (hlast : x.getLast? = some t) :
    (if Hook.elem t = (TSQueue.of q (x ++ post)).tail_ then (TSQueue.of q (x ++ post)).head_
      else (TSQueue.of q (x ++ post)).tail_) = (TSQueue.of q post).tail_ := by
  cases hpost : post.getLast? with
  | none =>
      rw [List.getLast?_eq_none_iff] at hpost
      subst hpost
      rw [List.append_nil, tail_of_getLast? hlast, if_pos rfl]
      rfl
  | some u =>
      have hboth : (x ++ post).getLast? = some u := by
        rw [List.getLast?_append, hpost]
        rfl
      have htu : t ≠ u := by
        have hdisj := (List.nodup_append.mp hnodup).2.2
        exact hdisj t (List.mem_of_getLast? hlast) u (List.mem_of_getLast? hpost)
      rw [tail_of_getLast? hboth, tail_of_getLast? hpost, if_neg (by simpa using htu)]

variable (pre x) in
/-- The links of a queue around a piece of it. -/
theorem Represents.around (hr : Represents s A) (hq : A.queues[q]? = some (pre ++ x ++ post))
    (hfirst : (x.map Hook.elem).head? = some first)
    (hlast : (x.map Hook.elem).getLast? = some last) :
    s.links.prev first = some (TSQueue.of q pre).tail_ ∧
      s.links.next last = post.head?.map .elem ∧ last ≠ (TSQueue.of q pre).tail_ := by
  have hchain := hr.chain_queue hq
  have hsplit : queueChain q (pre ++ x ++ post) =
      queueChain q pre ++ x.map Hook.elem ++ post.map Hook.elem := by
    simp [queueChain]
  have hnodup : (queueChain q (pre ++ x ++ post)).Nodup :=
    (List.nodup_flatten.mp hr.links.nodup).1 _ (List.mem_of_getElem? (chains_queue hq))
  rw [hsplit] at hchain hnodup
  obtain ⟨hprex, -⟩ := chain_append.mp hchain
  obtain ⟨-, hx⟩ := chain_append.mp hprex
  refine ⟨?_, ?_, fun heq => ?_⟩
  · rw [hx.prev_head hfirst, getLast?_queueChain]
    rfl
  · rw [hx.next_last hlast, Option.or_none, List.head?_map]
  · have hdisj := (List.nodup_append.mp (List.nodup_append.mp hnodup).1).2.2
    exact hdisj _ (List.mem_of_getLast? (getLast?_queueChain q pre)) last
      (List.mem_of_getLast? hlast) heq.symm

variable (pre) in
theorem Represents.around_elem (hr : Represents s A)
    (hq : A.queues[q]? = some (pre ++ [t] ++ post)) :
    s.links.prev (.elem t) = some (TSQueue.of q pre).tail_ ∧
      s.links.next (.elem t) = post.head?.map .elem ∧ .elem t ≠ (TSQueue.of q pre).tail_ :=
  hr.around pre [t] hq rfl rfl

theorem Represents.pop (hr : Represents s A) (hq : A.queues[q]? = some (t :: l)) :
    Simulates (s.pop q (TSQueue.of q (t :: l)))
      ((A.setQueue q l).setCheck t none, Lists.pointer (some t)) := by
  obtain ⟨hprev, -, hne⟩ := hr.around_elem [] hq
  have hrep := rep_popQueue [] [t] hr.links hq rfl rfl
  unfold Heap.pop
  rw [if_neg (by rw [head_eq_tail]; exact List.cons_ne_nil _ _)]
  rw [show s.links.next (TSQueue.of q (t :: l)).head_ = some (.elem t) from hr.next_head hq]
  refine ⟨⟨?_, (rep_forget hrep).of_eq (excise_of_prev hprev hne)⟩, rfl⟩
  apply ((hr.toRecords.withLinks _).setCheck t none).setQueue hq
  · apply queue_eq
    · exact tail_of_front [t] (hr.nodup_queue hq) rfl
    · rfl
  · exact fun u hu => hr.unused_queue hq (List.mem_cons_of_mem _ hu)

theorem Represents.addNil (hr : Represents s A) : Simulates (s.addSList .nil) (A.addList []) := by
  refine ⟨⟨hr.toRecords.addList rfl fun _ h => absurd h List.not_mem_nil, rep_addNil hr.links⟩, ?_⟩
  show Result.object s.slists.length = Result.object A.lists.length
  rw [hr.slists, List.length_map]

variable (pre x) in
theorem Represents.takeOut (hr : Represents s A) (hq : A.queues[q]? = some (pre ++ x ++ post))
    (hfirst : (x.map Hook.elem).head? = some first)
    (hlast : (x.map Hook.elem).getLast? = some last) {links : Links Hook}
    (hlinks : links = s.links.excise first last) (hrest : pre ++ post = l) {queue : TSQueue}
    (hqueue : queue = TSQueue.of q l) {list : SList} (hlist : list = SList.of x) :
    Simulates (({ s with links := links }.setQueue q queue).addSList list)
      ((A.setQueue q l).addList x) := by
  subst hrest
  have hmem : ∀ u ∈ pre ++ x ++ post, u ∉ A.deleted := fun u hu => hr.unused_queue hq hu
  refine ⟨⟨?_, (rep_popQueue _ _ hr.links hq hfirst hlast).of_eq hlinks⟩, ?_⟩
  · apply Records.addList _ hlist
    · intro u hu
      exact hmem u (List.mem_append_left _ (List.mem_append_right _ hu))
    · apply (hr.toRecords.withLinks _).setQueue hq hqueue
      intro u hu
      apply hmem
      simp only [List.mem_append] at hu ⊢
      exact hu.imp_left .inl
  · show Result.object s.slists.length = Result.object A.lists.length
    rw [hr.slists, List.length_map]

theorem Represents.popFront {n : Nat} (hr : Represents s A) (hq : A.queues[q]? = some l)
    (hn : n ≠ 0) : Simulates (s.popFront q (TSQueue.of q l) n)
      ((A.setQueue q (l.drop n)).addList (l.take n)) := by
  cases l with
  | nil =>
      rw [List.drop_nil, List.take_nil, setQueue_self hq]
      unfold Heap.popFront
      rw [if_pos (head_eq_tail.mpr rfl)]
      exact hr.addNil
  | cons t l =>
      have hwalk : Walk s.links.next (some (.elem t)) ((t :: l).map Hook.elem) :=
        (hr.chain_queue hq).2.2.walk_next
      obtain ⟨u, hlast, hwu, hcount⟩ := walk_elem hwalk hn
      obtain ⟨k, rfl⟩ := Nat.exists_eq_succ_of_ne_zero hn
      have hsplit : A.queues[q]? =
          some ([] ++ (t :: l).take (k + 1) ++ (t :: l).drop (k + 1)) := by
        rw [List.nil_append, List.take_append_drop, hq]
      have hlast' : (((t :: l).take (k + 1)).map Hook.elem).getLast? = some (.elem u) := by
        rw [List.getLast?_map, hlast]
        rfl
      obtain ⟨hprev, -, hne⟩ := hr.around _ _ hsplit rfl hlast'
      unfold Heap.popFront
      rw [if_neg (by rw [head_eq_tail]; exact List.cons_ne_nil _ _)]
      rw [show s.links.next (TSQueue.of q (t :: l)).head_ = some (.elem t) from hr.next_head hq]
      dsimp only
      rw [hwu, hcount]
      apply hr.takeOut _ _ hsplit rfl hlast' (excise_of_prev hprev hne)
        (List.nil_append _)
      · apply queue_eq
        · have htail := tail_of_front (q := q) ((t :: l).take (k + 1))
            (by rw [List.take_append_drop]; exact hr.nodup_queue hq) hlast
          rwa [List.take_append_drop] at htail
        · show (t :: l).length - _ = _
          rw [List.length_drop, List.length_take]
          omega
      · unfold SList.of
        rw [hlast]
        rfl

/-- The walk of `pop_back`. -/
theorem Represents.walk_before (hr : Represents s A) (hq : A.queues[q]? = some l)
    {r : List Nat} (hl : l.reverse = t :: r) :
    Walk (s.before (TSQueue.of q l)) (some (.elem t)) ((t :: r).map .elem) := by
  have hwalk := (hr.chain_queue hq).walk_prev
  have hlast : (queueChain q l).getLast? = some (.elem t) := by
    rw [getLast?_queueChain, tail_of_getLast? (t := t)]
    rw [← List.head?_reverse, hl]
    rfl
  have hreverse : (queueChain q l).reverse = (t :: r).map Hook.elem ++ [.head q] := by
    unfold queueChain
    rw [List.reverse_cons, ← List.map_reverse, hl]
  rw [hlast, hreverse] at hwalk
  exact hwalk.until (by simp)

theorem Represents.popBack {n : Nat} (hr : Represents s A) (hq : A.queues[q]? = some l)
    (hn : n ≠ 0) : Simulates (s.popBack q (TSQueue.of q l) n)
      ((A.setQueue q (l.take (l.length - n))).addList (l.drop (l.length - n))) := by
  cases hl : l.reverse with
  | nil =>
      obtain rfl := List.reverse_eq_nil_iff.mp hl
      rw [List.drop_nil, List.take_nil, setQueue_self hq]
      unfold Heap.popBack
      rw [if_pos (head_eq_tail.mpr rfl)]
      exact hr.addNil
  | cons t r =>
      obtain ⟨u, hu, hwu, hcount⟩ := walk_elem (hr.walk_before hq hl) hn
      have ht : l.getLast? = some t := by
        rw [← List.head?_reverse, hl]
        rfl
      have hlpos : 0 < l.length := by
        rw [← List.length_reverse, hl]
        exact Nat.succ_pos _
      rw [← hl, List.take_reverse] at hu hcount
      rw [List.getLast?_reverse] at hu
      rw [List.length_reverse] at hcount
      have hsplit : A.queues[q]? =
          some (l.take (l.length - n) ++ l.drop (l.length - n) ++ []) := by
        rw [List.append_nil, List.take_append_drop, hq]
      have hfirst : ((l.drop (l.length - n)).map Hook.elem).head? = some (.elem u) := by
        rw [List.head?_map, hu]
        rfl
      have hdrop : (l.drop (l.length - n)).getLast? = some t := by
        rw [List.getLast?_drop, if_neg (by omega), ht]
      have hlast : ((l.drop (l.length - n)).map Hook.elem).getLast? = some (.elem t) := by
        rw [List.getLast?_map, hdrop]
        rfl
      obtain ⟨hprev, hnext, -⟩ := hr.around _ _ hsplit hfirst hlast
      unfold Heap.popBack
      rw [if_neg (by rw [head_eq_tail]; exact List.ne_nil_of_length_pos hlpos)]
      dsimp only
      rw [tail_of_getLast? ht, hwu, hcount, hprev]
      dsimp only
      apply hr.takeOut _ _ hsplit hfirst hlast (excise_of_last hprev hnext) (List.append_nil _)
      · apply queue_eq rfl
        show l.length - _ = _
        rw [List.length_drop, List.length_take]
        omega
      · unfold SList.of
        rw [hu, hdrop]
        rfl

theorem Represents.popAll (hr : Represents s A) (hq : A.queues[q]? = some l) :
    Simulates (s.popAll q (TSQueue.of q l)) ((A.setQueue q []).addList l) := by
  cases l with
  | nil =>
      rw [setQueue_self hq]
      unfold Heap.popAll
      rw [if_pos (head_eq_tail.mpr rfl)]
      exact hr.addNil
  | cons t l =>
      obtain ⟨u, hu⟩ : ∃ u, (t :: l).getLast? = some u :=
        ⟨_, List.getLast?_eq_some_getLast (List.cons_ne_nil t l)⟩
      have hsplit : A.queues[q]? = some ([] ++ (t :: l) ++ []) := by
        rw [List.nil_append, List.append_nil, hq]
      have hlast : ((t :: l).map Hook.elem).getLast? = some (.elem u) := by
        rw [List.getLast?_map, hu]
        rfl
      obtain ⟨hprev, hnext, -⟩ := hr.around _ _ hsplit rfl hlast
      unfold Heap.popAll
      rw [if_neg (by rw [head_eq_tail]; exact List.cons_ne_nil _ _)]
      rw [show s.links.next (TSQueue.of q (t :: l)).head_ = some (.elem t) from hr.next_head hq]
      dsimp only
      rw [tail_of_getLast? hu]
      apply hr.takeOut _ _ hsplit rfl hlast (excise_of_next hprev hnext) rfl
      · rfl
      · unfold SList.of
        rw [hu]
        rfl

theorem tail_of_erase {rest : Option Hook} (hrest : rest = post.head?.map Hook.elem) :
    (if rest.isNone = true ∧ Hook.elem t = (TSQueue.of q (pre ++ [t] ++ post)).tail_ then
      (TSQueue.of q pre).tail_ else (TSQueue.of q (pre ++ [t] ++ post)).tail_) =
      (TSQueue.of q (pre ++ post)).tail_ := by
  cases post with
  | nil =>
      have htail : (TSQueue.of q (pre ++ [t] ++ [])).tail_ = .elem t := by
        apply tail_of_getLast?
        rw [List.append_nil, List.getLast?_concat]
      rw [htail, hrest, if_pos ⟨rfl, rfl⟩, List.append_nil]
  | cons u post =>
      rw [hrest, if_neg (by simp)]
      unfold TSQueue.of
      rw [List.append_assoc, List.singleton_append, List.getLast?_append, List.getLast?_cons_cons,
        List.getLast?_append]

/-- The element is in the queue, and the check lets it go. -/
theorem Represents.erase_of_mem (hr : Represents s A)
    (hq : A.queues[q]? = some (pre ++ [t] ++ post)) {check : Bool}
    (hcheck : ¬(check = true ∧ A.check t ≠ some q)) :
    Simulates (s.erase q (TSQueue.of q (pre ++ [t] ++ post)) (.elem t) check)
      ((A.setQueue q (pre ++ post)).setCheck t none, .bool true) := by
  obtain ⟨hprev, hnext, hne⟩ := hr.around_elem _ hq
  have hrep : Rep (s.links.excise (.elem t) (.elem t)) _ :=
    rep_popQueue pre [t] hr.links hq rfl rfl
  have hself : s.links.prev (.elem t) ≠ some (.elem t) := by
    rw [hprev]
    simpa using hne.symm
  have htail : Hook.elem t = (TSQueue.of q (pre ++ [t] ++ post)).tail_ ∨
      (s.links.next (.elem t)).isSome = true := by
    rw [hnext]
    cases post with
    | nil =>
        left
        apply (tail_of_getLast? _).symm
        rw [List.append_nil, List.getLast?_concat]
    | cons u post => exact .inr rfl
  have hcount : decide ((TSQueue.of q (pre ++ [t] ++ post)).count_ > 0) = true := by
    apply decide_eq_true
    show 0 < (pre ++ [t] ++ post).length
    rw [List.length_append, List.length_append, List.length_singleton]
    omega
  unfold Heap.erase
  rw [if_neg (by rw [hprev]; simp), if_neg (by rwa [hr.check])]
  dsimp only
  rw [assert_of s (by rw [hprev]; rfl), assert_of s (by simpa using htail), assert_of _ hcount]
  refine ⟨⟨?_, (rep_forget hrep).of_eq (excise_self hself)⟩, rfl⟩
  apply ((hr.toRecords.withLinks _).setCheck t none).setQueue hq
  · apply queue_eq
    · rw [hprev]
      dsimp only
      rw [next_setNext, if_neg hne]
      refine Eq.trans ?_ (tail_of_erase (t := t) hnext)
      split
      next hlast =>
        rw [← hlast.2, prev_setNext, hprev]
        rfl
      next => rfl
    · show (pre ++ [t] ++ post).length - 1 = (pre ++ post).length
      simp only [List.length_append, List.length_singleton]
      omega
  · intro u hu
    apply hr.unused_queue hq
    simp only [List.mem_append] at hu ⊢
    exact hu.imp_left .inl

theorem Represents.erase (hr : Represents s A) (hq : A.queues[q]? = some l) (ht : t ∈ l)
    {check : Bool} (hcheck : ¬(check = true ∧ A.check t ≠ some q)) :
    Simulates (s.erase q (TSQueue.of q l) (.elem t) check)
      ((A.setQueue q (l.erase t)).setCheck t none, .bool true) := by
  have hnodup := hr.nodup_queue hq
  obtain ⟨pre, post, rfl⟩ := List.append_of_mem ht
  have hpre : t ∉ pre := fun hin =>
    (List.nodup_append.mp hnodup).2.2 t hin t List.mem_cons_self rfl
  rw [List.erase_append_right _ hpre, List.erase_cons_head]
  rw [List.append_cons] at hq ⊢
  exact hr.erase_of_mem hq hcheck

theorem Represents.erase_of_fresh (hr : Represents s A) (ht : A.fresh t = true) {queue : TSQueue}
    {check : Bool} : s.erase q queue (.elem t) check = (s, .bool false) :=
  if_pos (hr.free (fresh_iff.mp ht).1)

theorem Represents.erase_of_check (hr : Represents s A) {check : Bool}
    (hcheck : check = true ∧ A.check t ≠ some q) :
    s.erase q (TSQueue.of q l) (.elem t) check = (s, .bool false) := by
  unfold Heap.erase
  split
  · rfl
  · rw [hr.check]
    exact if_pos hcheck

theorem after_append (hpre : t ∉ pre) : Lists.after t (pre ++ [t] ++ post) = post.head? := by
  induction pre with
  | nil => exact if_pos rfl
  | cons u pre ih =>
      rw [List.mem_cons, not_or] at hpre
      exact (if_neg (Ne.symm hpre.1)).trans (ih hpre.2)

/-- What `front` and `next` do with the node behind a node. -/
theorem Represents.next_of (hr : Represents s A) {o : Option Nat}
    (hout : s.links.next hook = o.map .elem) :
    Simulates (s.next (TSQueue.of q l) hook) (A.read q o) := by
  unfold Heap.next
  rw [hout]
  cases o with
  | none => exact ⟨hr, rfl⟩
  | some t => exact ⟨⟨hr.toRecords.setCheck t (some q), hr.links⟩, rfl⟩

theorem Represents.front (hr : Represents s A) (hq : A.queues[q]? = some l) :
    Simulates (s.front (TSQueue.of q l)) (A.read q l.head?) :=
  hr.next_of (hr.next_head hq)

theorem Represents.next (hr : Represents s A) (hq : A.queues[q]? = some l) (ht : t ∈ l) :
    Simulates (s.next (TSQueue.of q l) (.elem t)) (A.read q (Lists.after t l)) := by
  have hnodup := hr.nodup_queue hq
  obtain ⟨pre, post, rfl⟩ := List.append_of_mem ht
  have hpre : t ∉ pre := fun hin =>
    (List.nodup_append.mp hnodup).2.2 t hin t List.mem_cons_self rfl
  rw [List.append_cons] at hq ⊢
  apply hr.next_of
  rw [after_append hpre]
  exact (hr.around_elem _ hq).2.1

theorem Represents.next_of_fresh (hr : Represents s A) (ht : A.fresh t = true)
    {queue : TSQueue} : s.next queue (.elem t) = (s, Lists.pointer none) := by
  unfold Heap.next
  rw [(hr.free (fresh_iff.mp ht).1).2]
  rfl

end CppGo.Common
