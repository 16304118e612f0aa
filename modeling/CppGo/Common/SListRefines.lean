import CppGo.Common.TSQueueRefines

/-!
# The operations of `SList`
-/

namespace CppGo.Common

open CppGo.Lib CppGo.Lib.Links

variable {s : Heap} {A : Lists} {h : Links Hook} {l m pre x post : List Nat} {i j t : Nat}
  {a b first last : Hook}

variable (pre x) in
/-- The links of a list around a piece of it. -/
theorem Represents.around_list (hr : Represents s A) (hi : A.lists[i]? = some (pre ++ x ++ post))
    (hfirst : (x.map Hook.elem).head? = some first)
    (hlast : (x.map Hook.elem).getLast? = some last) :
    s.links.prev first = pre.getLast?.map .elem ∧ s.links.next last = post.head?.map .elem := by
  have hchain := hr.chain_list hi
  rw [List.map_append, List.map_append] at hchain
  obtain ⟨hprex, -⟩ := chain_append.mp hchain
  obtain ⟨-, hx⟩ := chain_append.mp hprex
  constructor
  · rw [hx.prev_head hfirst, Option.or_none, List.getLast?_map]
  · rw [hx.next_last hlast, Option.or_none, List.head?_map]

theorem not_mem_of_addList (hr : Rep h (A.addList [t]).1.chains) : t ∉ A.members := by
  intro ht
  have hperm := hr.perm (chains_addList A [t])
  apply (List.nodup_cons.mp hperm.nodup).1
  exact mem_flatten_chains.mpr (.inr ⟨t, ht, rfl⟩)

/-! ## `erase` -/

theorem head_of_eraseElem (hprev : h.prev (.elem t) = pre.getLast?.map Hook.elem)
    (hnext : h.next (.elem t) = post.head?.map Hook.elem) :
    (if (h.prev (.elem t)).isSome then (SList.of (pre ++ [t] ++ post)).head_
      else (SList.of (pre ++ [t] ++ post)).head_.bind h.next) = (SList.of (pre ++ post)).head_ := by
  rw [hprev]
  cases pre with
  | nil => exact hnext
  | cons u pre =>
      rw [List.getLast?_cons]
      rfl

theorem tail_of_eraseElem (hprev : h.prev (.elem t) = pre.getLast?.map Hook.elem)
    (hnext : h.next (.elem t) = post.head?.map Hook.elem) :
    (if (h.next (.elem t)).isSome then (SList.of (pre ++ [t] ++ post)).tail_
      else (SList.of (pre ++ [t] ++ post)).tail_.bind h.prev) = (SList.of (pre ++ post)).tail_ := by
  rw [hnext]
  cases post with
  | nil =>
      simp only [SList.of, List.append_nil, List.getLast?_concat]
      exact hprev
  | cons u post => simp [SList.of, List.getLast?_append, List.getLast?_cons]

theorem Represents.eraseElem_eq (hr : Represents s A)
    (hi : A.lists[i]? = some (pre ++ [t] ++ post)) :
    s.eraseElem i (SList.of (pre ++ [t] ++ post)) (.elem t) = Heap.setSList
      { s with
        links := s.links.excise (.elem t) (.elem t)
        deleted := s.deleted ++ [.elem t] } i (SList.of (pre ++ post)) := by
  obtain ⟨hprev, hnext⟩ := hr.around_list _ [t] hi rfl rfl
  have hprev : s.links.prev (.elem t) = pre.getLast?.map Hook.elem := hprev
  have hnext : s.links.next (.elem t) = post.head?.map Hook.elem := hnext
  have hself : s.links.prev (.elem t) ≠ some (.elem t) := by
    intro heq
    rw [hprev] at heq
    obtain ⟨u, hu, heq⟩ := Option.map_eq_some_iff.mp heq
    have hdisj := (List.nodup_append.mp (List.nodup_append.mp (hr.nodup_list hi)).1).2.2
    exact hdisj u (List.mem_of_getLast? hu) t List.mem_cons_self (Hook.elem.inj heq)
  have hhead : ((s.links.prev (.elem t)).isSome || (SList.of (pre ++ [t] ++ post)).head_.isSome)
      = true := by
    simp [SList.of]
  have htail : ((s.links.next (.elem t)).isSome || (SList.of (pre ++ [t] ++ post)).tail_.isSome)
      = true := by
    simp [SList.of]
  have hcount : (SList.of (pre ++ [t] ++ post)).count_ - 1 = (SList.of (pre ++ post)).count_ := by
    show (pre ++ [t] ++ post).length - 1 = (pre ++ post).length
    simp only [List.length_append, List.length_singleton]
    omega
  have heq : ∀ {links head tail count}, links = s.links.excise (.elem t) (.elem t) →
      head = (SList.of (pre ++ post)).head_ → tail = (SList.of (pre ++ post)).tail_ →
      count = (SList.of (pre ++ post)).count_ →
      Heap.setSList { s with links := links, deleted := s.deleted ++ [.elem t] } i
        { head_ := head, tail_ := tail, count_ := count } = Heap.setSList
          { s with
            links := s.links.excise (.elem t) (.elem t)
            deleted := s.deleted ++ [.elem t] } i (SList.of (pre ++ post)) := by
    rintro _ _ _ _ rfl rfl rfl rfl
    rfl
  unfold Heap.eraseElem
  dsimp only
  rw [assert_of s hhead, assert_of s htail]
  apply heq (excise_self hself) (head_of_eraseElem hprev hnext) ?_ hcount
  apply Eq.trans _ (tail_of_eraseElem (t := t) hprev hnext)
  cases hp : s.links.prev (.elem t) with
  | none => rfl
  | some p =>
      have hne : Hook.elem t ≠ p := by
        rintro rfl
        exact hself hp
      dsimp only
      rw [next_setNext, if_neg hne]
      rfl

variable (pre) in
theorem Represents.eraseElem_of_split (hr : Represents s A)
    (hi : A.lists[i]? = some (pre ++ [t] ++ post)) :
    Represents (s.eraseElem i (SList.of (pre ++ [t] ++ post)) (.elem t))
      ((A.delete [t]).setList i (pre ++ post)) := by
  have hrep : Rep (s.links.excise (.elem t) (.elem t)) _ := rep_cut pre [t] hr.links hi rfl rfl
  rw [hr.eraseElem_eq hi]
  refine ⟨?_, rep_forget hrep⟩
  have hmem : ∀ u ∈ pre ++ post, u ∉ A.deleted := by
    intro u hu
    apply hr.unused_list hi
    simp only [List.mem_append] at hu ⊢
    exact hu.imp_left .inl
  have hrecords : Records (Heap.setSList { s with links := s.links.excise (.elem t) (.elem t) } i
      (SList.of (pre ++ post))) (A.setList i (pre ++ post)) :=
    (hr.toRecords.withLinks _).setList rfl hmem
  refine ⟨hrecords.queue, hrecords.slists, hrecords.check, ?_, fun u hu => ?_, hr.asserted⟩
  · show s.deleted ++ _ = (A.deleted ++ [t]).map Hook.elem
    rw [hr.deleted, List.map_append]
    rfl
  · rcases List.mem_append.mp hu with hu | hu
    · exact hrecords.unused u hu
    · rw [List.mem_singleton.mp hu]
      exact not_mem_of_addList hrep

theorem Represents.eraseElem (hr : Represents s A) (hi : A.lists[i]? = some l) (ht : t ∈ l) :
    Represents (s.eraseElem i (SList.of l) (.elem t))
      ((A.delete [t]).setList i (l.erase t)) := by
  have hnodup := hr.nodup_list hi
  obtain ⟨pre, post, rfl⟩ := List.append_of_mem ht
  have hpre : t ∉ pre := fun hin =>
    (List.nodup_append.mp hnodup).2.2 t hin t List.mem_cons_self rfl
  rw [List.erase_append_right _ hpre, List.erase_cons_head]
  rw [List.append_cons] at hi ⊢
  exact hr.eraseElem_of_split pre hi

/-! ## The other operations -/

theorem getElem?_setList (hi : A.lists[i]? = some l) : (A.setList i m).lists[i]? = some m :=
  List.getElem?_set_self (List.getElem?_eq_some_iff.mp hi).1

theorem setList_setList : (A.setList i l).setList i m = A.setList i m := by
  unfold Lists.setList
  rw [List.set_set]

theorem Represents.clear (hr : Represents s A) (hi : A.lists[i]? = some l) :
    Represents (s.clearFrom i l.length (l.head?.map .elem)) ((A.delete l).setList i []) := by
  induction l generalizing s A with
  | nil =>
      have hdelete : A.delete [] = A := by
        unfold Lists.delete
        rw [List.append_nil]
      rw [hdelete, setList_self hi]
      exact hr
  | cons t l ih =>
      have hnext : s.links.next (.elem t) = l.head?.map .elem :=
        (hr.around_list [] [t] hi rfl rfl).2
      have hstep := hr.eraseElem_of_split [] hi
      have hrest := ih hstep (getElem?_setList hi)
      have hlists : (((A.delete [t]).setList i l).delete l).setList i [] =
          (A.delete (t :: l)).setList i [] := by
        rw [← setList_setList (l := l) (A := A.delete (t :: l))]
        unfold Lists.delete Lists.setList
        rw [List.append_assoc]
        rfl
      show Represents (Heap.clearFrom s i (l.length + 1) (some (.elem t))) _
      unfold Heap.clearFrom
      rw [hr.slist_some hi, hnext]
      rw [← hlists]
      exact hrest

/-- An `SList` without elements gets those of another one. -/
theorem Represents.exchange (hr : Represents s A) (hi : A.lists[i]? = some [])
    (hj : A.lists[j]? = some m) : Represents ((s.setSList i (SList.of m)).setSList j .nil)
      ((A.setList i m).setList j []) := by
  have hrecords : Records ((s.setSList i (SList.of m)).setSList j .nil)
      ((A.setList i m).setList j []) := by
    apply Records.setList _ rfl fun _ h => absurd h List.not_mem_nil
    exact hr.toRecords.setList rfl fun u hu => hr.unused_list hj hu
  refine ⟨hrecords, ?_⟩
  by_cases hij : i = j
  · subst hij
    rw [setList_setList, setList_self hi]
    exact hr.links
  · exact rep_exchange hr.links hij hi hj

theorem Represents.assign (hr : Represents s A) (hi : A.lists[i]? = some l)
    (hj : A.lists[j]? = some m) : Represents (s.assign i j (SList.of l))
      (((A.delete l).setList i m).setList j []) := by
  have hclear := hr.clear hi
  have hi' : ((A.delete l).setList i []).lists[i]? = some [] := getElem?_setList hi
  obtain ⟨m', hm', hlists⟩ : ∃ m', ((A.delete l).setList i []).lists[j]? = some m' ∧
      ((A.delete l).setList i m).setList j [] =
        (((A.delete l).setList i []).setList i m').setList j [] := by
    by_cases hij : i = j
    · subst hij
      exact ⟨[], hi', by rw [setList_setList, setList_setList, setList_setList]⟩
    · refine ⟨m, ?_, by rw [setList_setList]⟩
      show (A.lists.set i [])[j]? = some m
      rw [List.getElem?_set_ne hij, hj]
  have hother : (s.clearFrom i (SList.of l).count_ (SList.of l).head_).slists[j]? =
      some (SList.of m') := hclear.slist_some hm'
  rw [hlists]
  unfold Heap.assign
  dsimp only
  rw [hother]
  exact hclear.exchange hi' hm'

theorem Represents.append (hr : Represents s A) (hi : A.lists[i]? = some l)
    (hj : A.lists[j]? = some m) (hij : ¬(i = j ∧ m ≠ [])) :
    Represents (s.append i j (SList.of l) (SList.of m))
      ((A.setList i (l ++ m)).setList j []) := by
  cases m with
  | nil =>
      rw [List.append_nil, setList_self hi, setList_self hj]
      exact hr
  | cons t m =>
      have hij : i ≠ j := fun heq => hij ⟨heq, List.cons_ne_nil t m⟩
      cases l with
      | nil =>
          have hassign := hr.assign hi hj
          have hdelete : A.delete [] = A := by
            unfold Lists.delete
            rw [List.append_nil]
          rw [hdelete] at hassign
          exact hassign
      | cons u l =>
          obtain ⟨v, hv⟩ : ∃ v, (u :: l).getLast? = some v :=
            ⟨_, List.getLast?_eq_some_getLast (List.cons_ne_nil u l)⟩
          have hlast : ((u :: l).map Hook.elem).getLast? = some (.elem v) := by
            rw [List.getLast?_map, hv]
            rfl
          have hlist : SList.of (u :: l) =
              { head_ := some (.elem u), tail_ := some (.elem v), count_ := (u :: l).length } := by
            unfold SList.of
            rw [hv]
            rfl
          have hprev : s.links.prev (.elem t) = none := (hr.chain_list hj).prev_head rfl
          have hnext : s.links.next (.elem v) = none := (hr.chain_list hi).next_last hlast
          unfold Heap.append
          rw [hlist, show (SList.of (t :: m)).head_ = some (.elem t) from rfl]
          dsimp only
          rw [if_neg (by simp [SList.empty]), link_of hnext hprev]
          refine ⟨?_, rep_append hr.links hij hi hj hlast rfl⟩
          apply Records.setList _ rfl fun _ h => absurd h List.not_mem_nil
          apply (hr.toRecords.withLinks _).setList
          · have hlast' : (u :: l ++ t :: m).getLast? = (t :: m).getLast? := by
              rw [List.getLast?_append, List.getLast?_cons]
              rfl
            unfold SList.of
            rw [hlast', List.length_append]
            rfl
          · intro w hw
            rcases List.mem_append.mp hw with hw | hw
            · exact hr.unused_list hi hw
            · exact hr.unused_list hj hw

theorem Represents.move (hr : Represents s A) (hi : A.lists[i]? = some l) :
    Simulates (s.move i (SList.of l)) ((A.setList i []).addList l) := by
  have hlt : i < s.slists.length := (List.getElem?_eq_some_iff.mp (hr.slist_some hi)).1
  have hswap : (s.move i (SList.of l)).1 = ((s.setSList i .nil).addSList (SList.of l)).1 := by
    unfold Heap.move Heap.setSList Heap.addSList
    dsimp only
    rw [List.set_append_left _ _ hlt]
  constructor
  · rw [hswap]
    refine ⟨?_, rep_move hr.links hi⟩
    have hset : Records (s.setSList i .nil) (A.setList i []) :=
      hr.toRecords.setList rfl fun _ h => absurd h List.not_mem_nil
    exact hset.addList rfl fun u hu => hr.unused_list hi hu
  · show Result.object s.slists.length = Result.object (A.lists.set i []).length
    rw [hr.slists, List.length_map, List.length_set]

theorem unlink_of (hnext : s.links.next a = some b) (hprev : s.links.prev b = some a) :
    s.unlink a b = { s with links := (s.links.setNext a none).setPrev b none } := by
  unfold Heap.unlink
  dsimp only
  rw [assert_of s (by simp [hnext]), assert_of s (by simp [hprev])]

theorem Represents.cutOut {u v : Nat} (hr : Represents s A)
    (hi : A.lists[i]? = some (x ++ v :: post)) (hfirst : (x.map Hook.elem).head? = some first)
    (hu : x.getLast? = some u) :
    s.links.next (.elem u) = some (.elem v) ∧
      Simulates (((s.setSList i (SList.of (v :: post))).unlink (.elem u) (.elem v)).addSList
        (SList.of x)) ((A.setList i (v :: post)).addList x) := by
  have hlast : (x.map Hook.elem).getLast? = some (.elem u) := by
    rw [List.getLast?_map, hu]
    rfl
  obtain ⟨hprev, hnext⟩ := hr.around_list [] x hi hfirst hlast
  have hprev' : s.links.prev (.elem v) = some (.elem u) := by
    have hsplit : A.lists[i]? = some (x ++ [v] ++ post) := by
      rw [List.append_assoc, List.singleton_append, hi]
    rw [(hr.around_list _ [v] hsplit rfl rfl).1, hu]
    rfl
  have hset : Records (s.setSList i (SList.of (v :: post))) (A.setList i (v :: post)) :=
    hr.toRecords.setList rfl fun w hw => hr.unused_list hi (List.mem_append_right _ hw)
  refine ⟨hnext, ?_⟩
  rw [unlink_of (s := s.setSList i _) hnext hprev']
  refine ⟨⟨?_, (rep_cut [] x hr.links hi hfirst hlast).of_eq (excise_of_head hprev hnext)⟩, ?_⟩
  · exact (hset.withLinks _).addList rfl fun w hw => hr.unused_list hi (List.mem_append_left _ hw)
  · show Result.object (s.slists.set i _).length = Result.object (A.lists.set i _).length
    rw [hr.slists, List.length_set, List.length_set, List.length_map]

theorem Represents.cut {n : Nat} (hr : Represents s A) (hi : A.lists[i]? = some l) :
    Simulates (s.cut i (SList.of l) n) ((A.setList i (l.drop n)).addList (l.take n)) := by
  cases l with
  | nil =>
      rw [List.drop_nil, List.take_nil, setList_self hi]
      exact hr.addNil
  | cons t l =>
      unfold Heap.cut
      rw [show (SList.of (t :: l)).head_ = some (.elem t) from rfl]
      rw [show (SList.of (t :: l)).count_ = (t :: l).length from rfl]
      dsimp only
      split
      next hle =>
        rw [List.drop_eq_nil_of_le hle, List.take_of_length_le hle]
        exact hr.move hi
      split
      next hn =>
        rw [hn, List.drop_zero, List.take_zero, setList_self hi]
        exact hr.addNil
      next hlt hn =>
        have hwalk : Walk s.links.next (some (.elem t)) ((t :: l).map Hook.elem) :=
          (hr.chain_list hi).walk_next
        obtain ⟨u, hlast, hwu, -⟩ := walk_elem hwalk hn
        have hfirst : (((t :: l).take n).map Hook.elem).head? = some (.elem t) := by
          rw [List.head?_map, List.head?_take, if_neg hn]
          rfl
        have htake : ((t :: l).take n).length = n := by
          rw [List.length_take]
          omega
        have hlength : ((t :: l).drop n).length = (t :: l).length - n := List.length_drop
        have hcat := List.take_append_drop n (t :: l)
        cases hdrop : (t :: l).drop n with
        | nil =>
            rw [hdrop, List.length_nil] at hlength
            omega
        | cons v post =>
            rw [hdrop] at hcat hlength
            have htail : (t :: l).getLast? = (v :: post).getLast? := by
              rw [← hcat, List.getLast?_append, List.getLast?_cons]
              rfl
            obtain ⟨hnext, hsim⟩ := hr.cutOut (by rw [hcat, hi]) hfirst hlast
            rw [hwu, hnext]
            have hrest : SList.of (v :: post) =
                { head_ := some (.elem v)
                  tail_ := (SList.of (t :: l)).tail_
                  count_ := (t :: l).length - n } := by
              unfold SList.of
              rw [hlength, htail]
              rfl
            have hfront : SList.of ((t :: l).take n) =
                { head_ := some (.elem t), tail_ := some (.elem u), count_ := n } := by
              unfold SList.of
              rw [hlast, htake, ← List.head?_map, hfirst]
              rfl
            rw [hrest, hfront] at hsim
            exact hsim

end CppGo.Common
