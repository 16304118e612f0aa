import CppGo.Netio.SelectRelease

/-!
# Whom `WaitLoop` of `SelectIoWait` wakes

A `NetFD` has no `revents` until `select` reports something for it, so that a round of the loop
sees what `select` reports, and a pass wakes exactly the `NetFD`s that have asked for it.
-/

namespace CppGo.Netio

open CppGo.Lib CppGo.Lib.Machine

def Selectable (e : BitVec 32) : Prop := e = POLLIN ∨ e = POLLOUT ∨ e = POLLPRI

/-! ## The wake set -/

def Ready.mask (ready : Ready) (fd : Int) : BitVec 32 :=
  (if fd ∈ ready.read then POLLIN else 0) ||| (if fd ∈ ready.write then POLLOUT else 0) |||
    (if fd ∈ ready.exception then POLLPRI else 0)

def Ready.occurred (ready : Ready) (f : NetFD) : BitVec 32 := ofShort f.events &&& ready.mask f.fd

def Ready.serves (ready : Ready) (f : NetFD) : Bool := ready.occurred f != 0

def NetFD.served (f : NetFD) (r : BitVec 32) : NetFD :=
  { f with events := toShort (ofShort f.events &&& ~~~r), revents := toShort r, timer := .none }

section Masks

variable {ready : Ready} {f : NetFD}

theorem and_ite_flag {m : BitVec 32} (hm : Flags.IsFlag m) (x : BitVec 32) (p : Prop) [Decidable p] :
    x &&& (if p then m else 0) = if x &&& m ≠ 0 ∧ p then m else 0 := by
  obtain ⟨k, -, rfl⟩ := hm
  by_cases hp : p
  · rw [if_pos hp, BitVec.and_twoPow]
    cases x.getLsbD k <;> simp [hp]
  · rw [if_neg hp, if_neg fun h => hp h.2]
    exact BitVec.and_zero

theorem isFlag_pollin : Flags.IsFlag POLLIN := ⟨0, by decide, by decide⟩

theorem isFlag_pollout : Flags.IsFlag POLLOUT := ⟨2, by decide, by decide⟩

theorem isFlag_pollpri : Flags.IsFlag POLLPRI := ⟨1, by decide, by decide⟩

theorem Selectable.and_ofShort {e : BitVec 32} (he : Selectable e) (x : BitVec 32) :
    ofShort (toShort x) &&& e = x &&& e := by
  have hbit : ∀ k < 16, (ofShort (toShort x)).getLsbD k = x.getLsbD k := by
    intro k hk
    rw [ofShort, BitVec.getLsbD_signExtend, if_pos hk, toShort, BitVec.getLsbD_setWidth]
    simp [hk, show k < 32 by omega]
  rcases he with rfl | rfl | rfl
  · show _ &&& BitVec.twoPow 32 0 = _ &&& BitVec.twoPow 32 0
    rw [BitVec.and_twoPow, BitVec.and_twoPow, hbit 0 (by decide)]
  · show _ &&& BitVec.twoPow 32 2 = _ &&& BitVec.twoPow 32 2
    rw [BitVec.and_twoPow, BitVec.and_twoPow, hbit 2 (by decide)]
  · show _ &&& BitVec.twoPow 32 1 = _ &&& BitVec.twoPow 32 1
    rw [BitVec.and_twoPow, BitVec.and_twoPow, hbit 1 (by decide)]

theorem Ready.occurred_eq (ready : Ready) (f : NetFD) : ready.occurred f =
    (if ofShort f.events &&& POLLIN ≠ 0 ∧ f.fd ∈ ready.read then POLLIN else 0) |||
      (if ofShort f.events &&& POLLOUT ≠ 0 ∧ f.fd ∈ ready.write then POLLOUT else 0) |||
      (if ofShort f.events &&& POLLPRI ≠ 0 ∧ f.fd ∈ ready.exception then POLLPRI else 0) := by
  rw [occurred, mask, BitVec.and_or_distrib_left, BitVec.and_or_distrib_left,
    and_ite_flag isFlag_pollin, and_ite_flag isFlag_pollout, and_ite_flag isFlag_pollpri]

theorem Ready.ofShort_occurred (ready : Ready) (f : NetFD) :
    ofShort (toShort (ready.occurred f)) = ready.occurred f := by
  rw [ready.occurred_eq]
  split <;> split <;> split <;> decide

theorem Ready.serves_iff : ready.serves f = true ↔ ready.occurred f ≠ 0 := bne_iff_ne

theorem Ready.occurred_of_none
    (h : ready.read.length + ready.write.length + ready.exception.length = 0) (f : NetFD) :
    ready.occurred f = 0 := by
  have hread : ready.read = [] := List.length_eq_zero_iff.mp (by omega)
  have hwrite : ready.write = [] := List.length_eq_zero_iff.mp (by omega)
  have hexception : ready.exception = [] := List.length_eq_zero_iff.mp (by omega)
  simp [occurred, mask, hread, hwrite, hexception]

end Masks

namespace SelectIoWait

variable {s t : SelectIoWait} {ready : Ready} {n : Nat}

def wakeups (s : SelectIoWait) (ready : Ready) : List (Node Int Nat) :=
  s.fd_map.nodes.filter fun itr => ready.serves (s.netFd itr.value)

theorem mem_wakeups {itr : Node Int Nat} :
    itr ∈ s.wakeups ready ↔ itr ∈ s.fd_map.nodes ∧ ready.serves (s.netFd itr.value) = true :=
  List.mem_filter

def setOf (s : SelectIoWait) (e : BitVec 32) : Int → Bool :=
  if e = POLLIN then s.fd_read_set
  else if e = POLLOUT then s.fd_write_set
  else s.fd_exception_set

/-! ## One round -/

theorem reventsOf_eq (h : (s.netFd n).revents = 0) : s.reventsOf ready n = ready.occurred (s.netFd n) := by
  have hzero : ofShort (s.netFd n).revents = 0 := by
    rw [h]
    decide
  rw [ready.occurred_eq, reventsOf, hzero]
  split <;> split <;> split <;> decide

theorem visit_of_idle {itr : Node Int Nat} (hrevents : (s.netFd itr.value).revents = 0)
    (hserves : ready.serves (s.netFd itr.value) = false) : visit ready s itr = s := by
  have hnone : s.reventsOf ready itr.value = 0 := by
    rw [reventsOf_eq hrevents]
    simpa [Ready.serves] using hserves
  have hsame : { s.netFd itr.value with revents := toShort 0 } = s.netFd itr.value := by
    rw [show toShort 0 = (s.netFd itr.value).revents by rw [hrevents]; decide]
  have hself : s.setNetFd itr.value (s.netFd itr.value) = s := by
    unfold setNetFd
    rw [Function.update_eq_self]
  unfold visit
  dsimp only
  rw [hnone, if_neg fun hgo => hgo.1 rfl, hsame, hself]

structure Rouses (s t : SelectIoWait) (ready : Ready) (itr : Node Int Nat) : Prop where
  fd_map : t.fd_map = s.fd_map.erase itr.id
  queue : t.runnableQueue_ = s.runnableQueue_ ++ (s.netFd itr.value).owner_task.toList
  woken : t.netFd itr.value =
    (s.netFd itr.value).served (ready.occurred (s.netFd itr.value))
  others : ∀ m ≠ itr.value, t.netFd m = s.netFd m
  sets : ∀ e, Selectable e → ∀ fd, t.setOf e fd = (s.setOf e fd &&
    !((s.netFd itr.value).fd = fd && ready.occurred (s.netFd itr.value) &&& e != 0))
  calls : t.calls = s.calls
  ended : t.ended = s.ended
  maxfd : t.maxfd = s.maxfd

theorem pollsetDel_netFd_self {events : BitVec 32} (h : (s.netFd n).events ≠ 0) :
    (s.pollsetDel n events).netFd n =
      { s.netFd n with events := toShort (ofShort (s.netFd n).events &&& ~~~events) } := by
  unfold pollsetDel
  dsimp only
  rw [if_neg h]
  exact Function.update_self _ _ _

theorem pollsetDel_netFd_of_ne {events : BitVec 32} {m : Nat} (h : m ≠ n) :
    (s.pollsetDel n events).netFd m = s.netFd m := by
  unfold pollsetDel
  dsimp only
  split
  · rfl
  · exact Function.update_of_ne h _ _

theorem change_false (set : Int → Bool) (cond : Bool) (fd fd' : Int) :
    change set cond fd false fd' = (set fd' && !(fd = fd' && cond)) := by
  unfold change
  by_cases hfd : fd' = fd
  · cases cond <;> simp [hfd]
  · cases cond <;> simp [hfd, Ne.symm hfd]

theorem pollsetDel_setOf {events : BitVec 32} (hevents : (s.netFd n).events ≠ 0) (hne : events ≠ 0)
    {e : BitVec 32} (he : Selectable e) (fd : Int) :
    (s.pollsetDel n events).setOf e fd =
      (s.setOf e fd && !((s.netFd n).fd = fd && events &&& e != 0)) := by
  have hzero : (events == 0) = false := by simpa using hne
  unfold pollsetDel setOf
  dsimp only
  rw [if_neg hevents]
  rcases he with rfl | rfl | rfl
  · rw [if_pos rfl, if_pos rfl]
    refine (change_false _ _ _ _).trans ?_
    rw [hzero, Bool.or_false]
  · rw [if_neg (by decide), if_pos rfl, if_neg (by decide), if_pos rfl]
    refine (change_false _ _ _ _).trans ?_
    rw [hzero, Bool.or_false]
  · rw [if_neg (by decide), if_neg (by decide), if_neg (by decide), if_neg (by decide)]
    exact change_false _ _ _ _

theorem wake_rouses {itr : Node Int Nat} {r : BitVec 32}
    (hrevents : ofShort (s.netFd itr.value).revents = r) (hr : r ≠ 0)
    (hevents : (s.netFd itr.value).events ≠ 0) :
    (s.wake itr).fd_map = s.fd_map.erase itr.id ∧
      (s.wake itr).runnableQueue_ = s.runnableQueue_ ++ (s.netFd itr.value).owner_task.toList ∧
      (s.wake itr).netFd itr.value = { s.netFd itr.value with
        events := toShort (ofShort (s.netFd itr.value).events &&& ~~~r), timer := .none } ∧
      (∀ m ≠ itr.value, (s.wake itr).netFd m = s.netFd m) ∧
      (∀ e, Selectable e → ∀ fd, (s.wake itr).setOf e fd =
        (s.setOf e fd && !((s.netFd itr.value).fd = fd && r &&& e != 0))) ∧
      (s.wake itr).calls = s.calls ∧ (s.wake itr).ended = s.ended ∧
      (s.wake itr).maxfd = s.maxfd := by
  obtain ⟨hmap, hcalls, hqueue, hended, -, -, hmaxfd⟩ := @pollsetDel_frame
    { s with fd_map := s.fd_map.erase itr.id } itr.value (ofShort (s.netFd itr.value).revents)
  have hself := @pollsetDel_netFd_self { s with fd_map := s.fd_map.erase itr.id } itr.value
    (ofShort (s.netFd itr.value).revents) hevents
  refine ⟨hmap, ?_, ?_, fun m hm => ?_, fun e he fd => ?_, hcalls, hended, hmaxfd⟩
  · show (pollsetDel _ _ _).runnableQueue_ ++ _ = _
    rw [hqueue, hself]
  · rw [← hrevents]
    refine (setNetFd_self _).trans ?_
    show { (pollsetDel _ _ _).netFd itr.value with timer := PollTimer.none } = _
    rw [hself]
  · exact (setNetFd_of_ne hm _).trans (pollsetDel_netFd_of_ne hm)
  · rw [← hrevents] at hr ⊢
    exact @pollsetDel_setOf { s with fd_map := s.fd_map.erase itr.id } itr.value _ hevents hr e he fd

theorem visit_rouses {itr : Node Int Nat} (hrevents : (s.netFd itr.value).revents = 0)
    (hserves : ready.serves (s.netFd itr.value) = true) :
    Rouses s (visit ready s itr) ready itr := by
  have hoccurred := Ready.serves_iff.mp hserves
  have hevents : (s.netFd itr.value).events ≠ 0 := by
    intro hzero
    rw [Ready.occurred, hzero] at hoccurred
    simp [ofShort] at hoccurred
  unfold visit
  dsimp only
  rw [reventsOf_eq hrevents]
  generalize hr : ready.occurred (s.netFd itr.value) = r at hoccurred ⊢
  have hback : ofShort (toShort r) = r := hr ▸ ready.ofShort_occurred _
  generalize hu : s.setNetFd itr.value { s.netFd itr.value with revents := toShort r } = u
  have hself : u.netFd itr.value = { s.netFd itr.value with revents := toShort r } := by
    rw [← hu, setNetFd_self]
  have hgo : r ≠ 0 ∧ r &&& u.events itr.value ≠ 0 := by
    refine ⟨hoccurred, ?_⟩
    rw [SelectIoWait.events, hself]
    dsimp only
    rwa [← hr, Ready.occurred, BitVec.and_comm, ← BitVec.and_assoc, BitVec.and_self,
      ← Ready.occurred, hr]
  rw [if_pos hgo]
  obtain ⟨hmap, hqueue, hwoken, hothers, hsets, hcalls, hended, hmaxfd⟩ := @wake_rouses u itr r
    (by rw [hself]; exact hback) hoccurred (by rw [hself]; exact hevents)
  have hne : ∀ m ≠ itr.value, u.netFd m = s.netFd m := by
    intro m hm
    rw [← hu, setNetFd_of_ne hm]
  constructor
  case fd_map => rw [hmap, ← hu]; rfl
  case queue =>
    rw [hqueue, hself, ← hu]
    rfl
  case woken =>
    rw [hwoken, hself, hr]
    rfl
  case others => exact fun m hm => (hothers m hm).trans (hne m hm)
  case sets =>
    intro e he fd
    rw [hsets e he fd, hself, hr, ← hu]
    rfl
  case calls => rw [hcalls, ← hu]; rfl
  case ended => rw [hended, ← hu]; rfl
  case maxfd => rw [hmaxfd, ← hu]; rfl

/-! ## The loop -/

theorem any_congr_mem {α : Type*} {l : List α} {p q : α → Bool} (h : ∀ x ∈ l, p x = q x) :
    l.any p = l.any q := by
  rw [Bool.eq_iff_iff, List.any_eq_true, List.any_eq_true]
  exact exists_congr fun x => and_congr_right fun hx => by rw [h x hx]

theorem foldl_visit_rouses (itrs : List (Node Int Nat)) (s : SelectIoWait)
    (hrevents : ∀ itr ∈ itrs, (s.netFd itr.value).revents = 0)
    (hvalues : (itrs.map Node.value).Nodup) :
    let t := itrs.foldl (visit ready) s
    t.runnableQueue_ = s.runnableQueue_ ++
        (itrs.filter fun itr => ready.serves (s.netFd itr.value)).filterMap
          (fun itr => (s.netFd itr.value).owner_task) ∧
      t.fd_map.nodes = (s.fd_map.nodes.filter fun k =>
        !itrs.any fun itr => itr.id = k.id && ready.serves (s.netFd itr.value)) ∧
      (∀ n, t.netFd n =
        if itrs.any (fun itr => itr.value = n && ready.serves (s.netFd n))
        then (s.netFd n).served (ready.occurred (s.netFd n)) else s.netFd n) ∧
      (∀ e, Selectable e → ∀ fd, t.setOf e fd = (s.setOf e fd && !itrs.any fun itr =>
        (s.netFd itr.value).fd = fd && ready.occurred (s.netFd itr.value) &&& e != 0)) ∧
      t.fd_map.nextId = s.fd_map.nextId ∧ t.calls = s.calls ∧ t.ended = s.ended ∧
      t.maxfd = s.maxfd := by
  induction itrs generalizing s with
  | nil => simp
  | cons itr itrs ih =>
      obtain ⟨hrevents, hrest⟩ := List.forall_mem_cons.mp hrevents
      rw [List.map_cons, List.nodup_cons] at hvalues
      obtain ⟨hnew, hvalues⟩ := hvalues
      have hne : ∀ k ∈ itrs, k.value ≠ itr.value :=
        fun k hk heq => hnew (heq ▸ List.mem_map_of_mem hk)
      cases hserves : ready.serves (s.netFd itr.value) with
      | false =>
          have hvisit := visit_of_idle hrevents hserves
          have hnone : ready.occurred (s.netFd itr.value) = 0 := by
            simpa [Ready.serves] using hserves
          obtain ⟨hqueue, hnodes, hnet, hsets, hframe⟩ := ih s hrest hvalues
          rw [List.foldl_cons, hvisit]
          refine ⟨?_, ?_, fun n => ?_, fun e he fd => ?_, hframe⟩
          · rw [hqueue, List.filter_cons_of_neg (by simp [hserves])]
          · rw [hnodes]
            simp only [List.any_cons, hserves, Bool.and_false, Bool.false_or]
          · rw [hnet n]
            by_cases hn : itr.value = n
            · simp [← hn, hserves]
            · simp [hn]
          · simp [hsets e he fd, hnone]
      | true =>
          have hvisit := visit_rouses hrevents hserves
          have hothers : ∀ k ∈ itrs, (visit ready s itr).netFd k.value = s.netFd k.value :=
            fun k hk => hvisit.others _ (hne k hk)
          obtain ⟨hqueue, hnodes, hnet, hsets, hid, hcalls, hended, hmaxfd⟩ := ih (visit ready s itr)
            (fun k hk => by rw [hothers k hk]; exact hrest k hk) hvalues
          rw [List.foldl_cons]
          refine ⟨?_, ?_, fun n => ?_, fun e he fd => ?_, ?_, hcalls.trans hvisit.calls,
            hended.trans hvisit.ended, hmaxfd.trans hvisit.maxfd⟩
          · have hfilter : (itrs.filter fun k => ready.serves ((visit ready s itr).netFd k.value)) =
                itrs.filter fun k => ready.serves (s.netFd k.value) :=
              List.filter_congr fun k hk => by rw [hothers k hk]
            have hmap : (itrs.filter fun k => ready.serves (s.netFd k.value)).filterMap
                (fun k => ((visit ready s itr).netFd k.value).owner_task) =
                  (itrs.filter fun k => ready.serves (s.netFd k.value)).filterMap
                    fun k => (s.netFd k.value).owner_task :=
              List.filterMap_congr fun k hk => by rw [hothers k (List.mem_of_mem_filter hk)]
            rw [hqueue, hfilter, hmap, hvisit.queue, List.append_assoc,
              List.filter_cons, if_pos hserves, List.filterMap_cons]
            cases (s.netFd itr.value).owner_task <;> rfl
          · have hany : ∀ k : Node Int Nat, (itrs.any fun k' => k'.id = k.id &&
                ready.serves ((visit ready s itr).netFd k'.value)) =
                  itrs.any fun k' => k'.id = k.id && ready.serves (s.netFd k'.value) :=
              fun k => any_congr_mem fun k' hk' => by rw [hothers k' hk']
            rw [hnodes, hvisit.fd_map, Multimap.filter_erase]
            apply List.filter_congr
            intro k _
            rw [hany, List.any_cons, hserves, Bool.and_true, Bool.not_or]
          · rw [hnet n]
            by_cases hn : itr.value = n
            · -- no other element is one of this `NetFD`
              have hnone : itrs.any (fun k => k.value = n &&
                  ready.serves ((visit ready s itr).netFd n)) = false := by
                rw [List.any_eq_false]
                intro k hk
                simp [← hn, hne k hk]
              rw [hnone, if_neg Bool.false_ne_true, ← hn, hvisit.woken]
              simp [hserves]
            · rw [hvisit.others n (Ne.symm hn)]
              simp [hn]
          · have hany : (itrs.any fun k => ((visit ready s itr).netFd k.value).fd = fd &&
                ready.occurred ((visit ready s itr).netFd k.value) &&& e != 0) =
                  itrs.any fun k => (s.netFd k.value).fd = fd &&
                    ready.occurred (s.netFd k.value) &&& e != 0 :=
              any_congr_mem fun k hk => by rw [hothers k hk]
            rw [hsets e he fd, hany, hvisit.sets e he fd, List.any_cons, Bool.not_or, Bool.and_assoc]
          · rw [hid, hvisit.fd_map]
            rfl

end SelectIoWait

end CppGo.Netio
