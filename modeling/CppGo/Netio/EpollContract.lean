import CppGo.Netio.EpollMirror

/-!
# The operations keep the mirror

`WaitLoop` and the timeouts take entries out of `fd_map` and register what is left;
`Poll` puts one in.
-/

namespace CppGo.Netio

open CppGo.Lib CppGo.Lib.Machine

namespace EpollIoWait

variable {s t : EpollIoWait}

/-! ## `WaitLoop` -/

/-- What `epoll_wait` can report: some of the registered events, and errors. -/
def mayReport (s : EpollIoWait) (e : EpollEvent) : Bool :=
  match s.epoll.lookup e.fd with
  | none => false
  | some mask =>
      e.events != 0 && e.events &&& ~~~((mask &&& ~~~EPOLLET) ||| POLLERR ||| POLLHUP) == 0

/-- No exception is reported, or every event that is waited for is reported too. -/
def complete (s : EpollIoWait) (e : EpollEvent) : Bool :=
  e.events &&& POLL_EXCEPTION == 0 || s.requested e.fd &&& ~~~e.events == 0

theorem any_entries {fd : Int} {n : Node Int Nat} {p : Node Int Nat → Bool}
    (hn : n ∈ s.fd_map.nodes) :
    ((s.entries fd).any fun itr => itr.id = n.id && p itr) = (decide (n.key = fd) && p n) := by
  rw [Bool.eq_iff_iff]
  simp only [List.any_eq_true, Bool.and_eq_true, decide_eq_true_eq, mem_entries]
  constructor
  · rintro ⟨itr, ⟨hitr, hkey⟩, hid, hp⟩
    cases Multimap.eq_of_id hitr hn hid
    exact ⟨hkey, hp⟩
  · rintro ⟨hkey, hp⟩
    exact ⟨n, ⟨hn, hkey⟩, rfl, hp⟩

theorem entries_of_filter {fd : Int} {p : Node Int Nat → Bool}
    (hnodes : t.fd_map.nodes = s.fd_map.nodes.filter fun n =>
      !(s.entries fd).any fun itr => itr.id = n.id && p itr) (fd' : Int) :
    t.entries fd' =
      if fd' = fd then (s.entries fd).filter fun n => !p n else s.entries fd' := by
  have hfilter : t.fd_map.nodes = s.fd_map.nodes.filter fun n =>
      !(decide (n.key = fd) && p n) := by
    rw [hnodes]
    apply List.filter_congr
    intro n hn
    rw [any_entries hn]
  unfold entries
  rw [hfilter, List.filter_filter]
  split
  · rename_i heq
    rw [heq, List.filter_filter]
    apply List.filter_congr
    intro n _
    by_cases hk : n.key = fd <;> simp [hk]
  · rename_i hne
    apply List.filter_congr
    intro n _
    by_cases hk : n.key = fd'
    · have : n.key ≠ fd := fun heq => hne (hk.symm.trans heq)
      simp [hk, hne]
    · simp [hk]

theorem Mirrored.left {e : EpollEvent} (h : s.Mirrored) (hcomplete : s.complete e = true) :
    s.requested e.fd &&& ~~~e.events =
      Flags.union (((s.entries e.fd).filter fun n => !wants e.events (s.events n.value)).map
        fun itr => s.events itr.value) := by
  by_cases hexc : e.events &&& POLL_EXCEPTION = 0
  · have hflags : ∀ x ∈ (s.entries e.fd).map fun itr => s.events itr.value, Flags.IsFlag x :=
      fun x hx => (h.toCoherent.waits_of_mem hx).isFlag
    unfold requested
    rw [Flags.union_and_not hflags, List.filter_map]
    congr 2
    apply List.filter_congr
    intro n _
    rw [Bool.eq_iff_iff]
    simp [wants, hexc]
  · have hexc' : (e.events &&& POLL_EXCEPTION == 0) = false := by simpa using hexc
    have hzero : s.requested e.fd &&& ~~~e.events = 0 := by
      rw [complete, hexc', Bool.false_or] at hcomplete
      exact eq_of_beq hcomplete
    have hwants : ∀ n : Node Int Nat, wants e.events (s.events n.value) = true := by
      intro n
      unfold wants
      rw [show (e.events &&& POLL_EXCEPTION != 0) = true by simpa using hexc, Bool.or_true]
    have hnone : ((s.entries e.fd).filter fun n => !wants e.events (s.events n.value)) = [] := by
      simp [hwants]
    rw [hzero, hnone]
    rfl

structure Elsewhere (s t : EpollIoWait) (fd : Int) : Prop where
  lookup : ∀ fd' ≠ fd, t.epoll.lookup fd' = s.epoll.lookup fd'
  requested : ∀ fd' ≠ fd, t.requested fd' = s.requested fd'

theorem Elsewhere.refl {fd : Int} : Elsewhere s s fd :=
  ⟨fun _ _ => rfl, fun _ _ => rfl⟩

theorem elsewhere_settle {fd : Int} {modEvents : BitVec 32} :
    Elsewhere t (t.settle fd modEvents) fd := by
  unfold settle ctlDel ctlMod assert
  constructor
  · intro fd' hne
    split <;> split
    · exact AList.lookup_erase_ne hne
    · simp only [Bool.false_eq_true, if_false]
      split <;> rfl
    · exact AList.lookup_insert_ne hne
    · rfl
  · intro fd' _
    split <;> split
    · rfl
    · simp only [Bool.false_eq_true, if_false]
      split <;> rfl
    · rfl
    · rfl

theorem Mirrored.report {e : EpollEvent} (h : s.Mirrored) (hmay : s.mayReport e = true)
    (hcomplete : s.complete e = true) :
    (s.report e).Mirrored ∧ Elsewhere s (s.report e) e.fd := by
  unfold EpollIoWait.report
  split
  · exact ⟨h, .refl⟩
  rename_i hlive
  split
  · exact ⟨h, .refl⟩
  rename_i hfd
  have hmem : e.fd ∈ s.epoll := by
    rw [← AList.lookup_isSome]
    unfold mayReport at hmay
    split at hmay
    · cases hmay
    · rename_i mask hmask
      rw [hmask]
      rfl
  have hentries : s.entries e.fd ≠ [] := (h.mirror e.fd hfd).registered.mp hmem
  have hassert : s.assert .reported (!(s.entries e.fd).isEmpty) = s := by
    simp [assert, hentries]
  simp only [hassert, hlive, Bool.false_eq_true, if_false]
  obtain ⟨hserved, hmod⟩ := serve_spec e.events (s.entries e.fd) s 0
  have hsplit := entries_of_filter hserved.nodes
  generalize hr : serve e.events (s.entries e.fd) s 0 = r at hserved hmod hsplit
  have hcoherent : r.1.Coherent := by
    apply h.toCoherent.of_keeps hserved.toKeeps
    · rw [hserved.nodes]
      exact List.filter_subset_self _
    · intro n hn
      obtain ⟨harmed, hunserved⟩ := hserved.timer n hn
      obtain ⟨itr, hitr, hvalue⟩ := h.timer n harmed
      refine ⟨itr, ?_, hvalue⟩
      rw [hserved.nodes, List.mem_filter, any_entries hitr]
      refine ⟨hitr, ?_⟩
      by_cases hkey : itr.key = e.fd
      · rw [hunserved itr (mem_entries.mpr ⟨hitr, hkey⟩) hvalue, Bool.and_false]
        rfl
      · simp [hkey]
  have hevents : ∀ l : List (Node Int Nat),
      (l.map fun itr => r.1.events itr.value) = l.map fun itr => s.events itr.value :=
    fun l => List.map_congr_left fun itr _ => hserved.events itr.value
  have hothers : ∀ fd' ≠ e.fd, r.1.requested fd' = s.requested fd' := by
    intro fd' hne
    unfold requested
    rw [hsplit fd', if_neg hne, hevents]
  have hreq : r.2 &&& ~~~e.events = r.1.requested e.fd := by
    have hzero : r.2 = s.requested e.fd := by
      rw [hmod]
      exact BitVec.zero_or
    rw [hzero, h.left hcomplete]
    unfold requested
    rw [hsplit e.fd, if_pos rfl, hevents]
  constructor
  · apply hcoherent.settle
    · rw [hserved.notify]
      exact hfd
    · rw [hserved.epoll]
      exact hmem
    · exact hreq
    · intro fd' hnotify hne
      rw [hserved.notify] at hnotify
      have heq : r.1.entries fd' = s.entries fd' := by rw [hsplit fd', if_neg hne]
      exact mirrorAt_congr (by rw [hserved.epoll]) heq (fun itr _ => hserved.events _)
        (h.mirror fd' hnotify)
  · have hset : Elsewhere r.1 (r.1.settle e.fd (r.2 &&& ~~~e.events)) e.fd := elsewhere_settle
    constructor
    · intro fd' hne
      rw [hset.lookup fd' hne, hserved.epoll]
    · intro fd' hne
      rw [hset.requested fd' hne, hothers fd' hne]

theorem Mirrored.waitLoop {reports : List EpollEvent} (h : s.Mirrored)
    (hnodup : (reports.map EpollEvent.fd).Nodup) (hmay : ∀ e ∈ reports, s.mayReport e = true)
    (hcomplete : ∀ e ∈ reports, s.complete e = true) : (s.waitLoop reports).Mirrored := by
  unfold EpollIoWait.waitLoop
  induction reports generalizing s with
  | nil => exact h
  | cons e reports ih =>
      rw [List.map_cons, List.nodup_cons] at hnodup
      obtain ⟨hmirrored, hframe⟩ :=
        h.report (hmay e List.mem_cons_self) (hcomplete e List.mem_cons_self)
      have hne : ∀ e' ∈ reports, e'.fd ≠ e.fd := by
        intro e' he' heq
        exact hnodup.1 (heq ▸ List.mem_map_of_mem he')
      rw [List.foldl_cons]
      apply ih hmirrored hnodup.2
      · intro e' he'
        have hold := hmay e' (List.mem_cons_of_mem _ he')
        unfold mayReport at hold ⊢
        rw [hframe.lookup e'.fd (hne e' he')]
        exact hold
      · intro e' he'
        have hold := hcomplete e' (List.mem_cons_of_mem _ he')
        unfold complete at hold ⊢
        rw [hframe.requested e'.fd (hne e' he')]
        exact hold

/-! ## Timeouts -/

theorem Mirrored.pollsetTimeoutDel {n : Nat} (h : s.Mirrored) (hlive : s.halted = false)
    (hmapped : ∃ itr ∈ s.fd_map.nodes, itr.value = n) (htimer : (s.netFd n).timer ≠ .armed) :
    (s.pollsetTimeoutDel n).Mirrored := by
  obtain ⟨itr, hitr, hvalue⟩ := hmapped
  have hkey := h.key itr hitr
  rw [hvalue] at hkey
  have hfd : (s.netFd n).fd ≠ s.notify_socket := h.foreign n
  have hentry : itr ∈ s.entries (s.netFd n).fd := mem_entries.mpr ⟨hitr, hkey.symm⟩
  have hentries : s.entries (s.netFd n).fd ≠ [] := List.ne_nil_of_mem hentry
  have hassert : s.assert .timed (!(s.entries (s.netFd n).fd).isEmpty) = s := by
    simp [assert, hentries]
  unfold EpollIoWait.pollsetTimeoutDel
  simp only [hassert, hlive, Bool.false_eq_true, if_false]
  obtain ⟨hkeeps, hnet, hnodes, hmod⟩ := dropNetFd_spec n (s.entries (s.netFd n).fd) s 0
  have hsplit := entries_of_filter hnodes
  generalize dropNetFd n (s.entries (s.netFd n).fd) s 0 = r at hkeeps hnet hnodes hmod hsplit
  have hcoherent : r.1.Coherent := by
    apply h.toCoherent.of_keeps hkeeps
    · rw [hnodes]
      exact List.filter_subset_self _
    · intro m hm
      rw [hnet] at hm
      obtain ⟨k, hk, hkm⟩ := h.timer m hm
      refine ⟨k, ?_, hkm⟩
      rw [hnodes, List.mem_filter, any_entries hk]
      refine ⟨hk, ?_⟩
      have hne : k.value ≠ n := by
        rw [hkm]
        rintro rfl
        exact htimer hm
      simp [hne]
  apply hcoherent.settle
  · rw [hkeeps.notify]
    exact hfd
  · rw [hkeeps.epoll]
    exact (h.mirror _ hfd).registered.mpr hentries
  · rw [hmod]
    unfold requested
    rw [hsplit, if_pos rfl]
    have hfilter : ((s.entries (s.netFd n).fd).filter fun itr => decide (itr.value ≠ n)) =
        (s.entries (s.netFd n).fd).filter fun itr => !decide (itr.value = n) := by
      simp
    have hsame : ∀ l : List (Node Int Nat),
        (l.map fun itr => r.1.events itr.value) = l.map fun itr => s.events itr.value :=
      fun l => List.map_congr_left fun itr _ => hkeeps.events itr.value
    rw [hfilter, hsame]
    exact BitVec.zero_or
  · intro fd' hnotify hne
    rw [hkeeps.notify] at hnotify
    have heq : r.1.entries fd' = s.entries fd' := by rw [hsplit fd', if_neg hne]
    exact mirrorAt_congr (by rw [hkeeps.epoll]) heq (fun itr _ => hkeeps.events _)
      (h.mirror fd' hnotify)

theorem Mirrored.timeoutCallback {n : Nat} (h : s.Mirrored) (hlive : s.halted = false)
    (harmed : (s.netFd n).timer = .armed) : (s.timeoutCallback n).Mirrored := by
  have hfired : (s.setNetFd n { s.netFd n with timer := .fired }).Mirrored := by
    have hnet : ∀ m, ((s.setNetFd n { s.netFd n with timer := .fired }).netFd m).fd =
        (s.netFd m).fd ∧
        ((s.setNetFd n { s.netFd n with timer := .fired }).netFd m).events = (s.netFd m).events ∧
        ((s.setNetFd n { s.netFd n with timer := .fired }).netFd m).owner_task =
          (s.netFd m).owner_task := by
      intro m
      by_cases hm : m = n
      · subst hm
        simp [EpollIoWait.setNetFd]
      · simp [EpollIoWait.setNetFd, hm]
    refine h.of_keeps ⟨rfl, rfl, rfl, rfl, rfl, fun m => (hnet m).1, fun m => ?_,
      fun m => (hnet m).2.2⟩ rfl fun m hm => ?_
    · rw [events, (hnet m).2.1, events]
    · by_cases hmn : m = n
      · rw [hmn]
        exact harmed
      · simpa [EpollIoWait.setNetFd, hmn] using hm
  have hdel := hfired.pollsetTimeoutDel (n := n) hlive (h.timer n harmed) (by
    simp [EpollIoWait.setNetFd])
  unfold EpollIoWait.timeoutCallback
  dsimp only
  split
  · exact hdel
  · exact hdel.of_keeps ⟨rfl, rfl, rfl, rfl, rfl, fun _ => rfl, fun _ => rfl, fun _ => rfl⟩ rfl
      fun _ hm => hm

/-! ## `Poll` -/

theorem Mirrored.unmapped {n : Nat} (h : s.Mirrored) (howner : (s.netFd n).owner_task = none) :
    ∀ itr ∈ s.fd_map.nodes, itr.value ≠ n := by
  rintro itr hitr rfl
  exact h.owner itr hitr howner

theorem Mirrored.unarmed {n : Nat} (h : s.Mirrored) (howner : (s.netFd n).owner_task = none) :
    (s.netFd n).timer ≠ .armed := by
  intro harmed
  obtain ⟨itr, hitr, hvalue⟩ := h.timer n harmed
  exact h.unmapped howner itr hitr hvalue

theorem entries_insert_perm {n : Nat} {fd fd' : Int}
    (hmap : t.fd_map = s.fd_map.insert fd n) :
    (t.entries fd').Perm
      (if fd = fd' then ⟨s.fd_map.nextId, fd, n⟩ :: s.entries fd' else s.entries fd') := by
  have hperm : t.fd_map.nodes.Perm (⟨s.fd_map.nextId, fd, n⟩ :: s.fd_map.nodes) := by
    rw [hmap]
    exact Multimap.perm_insertNode
  have hfilter := hperm.filter fun k => decide (k.key = fd')
  by_cases hfd : fd = fd'
  · rw [List.filter_cons_of_pos (by simpa using hfd)] at hfilter
    rw [if_pos hfd]
    exact hfilter
  · rw [List.filter_cons_of_neg (by simpa using hfd)] at hfilter
    rw [if_neg hfd]
    exact hfilter

/-- A `NetFD` is put into `fd_map` after its events have been registered. -/
theorem Mirrored.emplace {n : Nat} {events : BitVec 32} (h : s.Mirrored)
    (howner : (s.netFd n).owner_task = none) (hwaits : Waits events)
    (hmap : t.fd_map = s.fd_map.insert (s.netFd n).fd n)
    (hother : ∀ m ≠ n, t.netFd m = s.netFd m) (hfd : (t.netFd n).fd = (s.netFd n).fd)
    (howned : (t.netFd n).owner_task ≠ none) (hevents : t.events n = events)
    (hnotify : t.notify_socket = s.notify_socket)
    (hlookup : ∀ fd ≠ (s.netFd n).fd, t.epoll.lookup fd = s.epoll.lookup fd)
    (hself : ∃ m, t.epoll.lookup (s.netFd n).fd = some m ∧
      m &&& ~~~EPOLLET = s.requested (s.netFd n).fd ||| events)
    (hcount : t.evtlist_cnt + 1 = t.epoll.keys.length)
    (hfailed : ∀ a ∈ t.failed, a = .positive) (heexist : t.eexist = false) : t.Mirrored := by
  have hmem : ∀ itr, itr ∈ t.fd_map.nodes ↔
      itr = ⟨s.fd_map.nextId, (s.netFd n).fd, n⟩ ∨ itr ∈ s.fd_map.nodes := by
    intro itr
    rw [hmap]
    exact Multimap.mem_insert
  have hold : ∀ itr ∈ s.fd_map.nodes, t.netFd itr.value = s.netFd itr.value :=
    fun itr hitr => hother _ (h.unmapped howner itr hitr)
  have holdEvents : ∀ itr ∈ s.fd_map.nodes, t.events itr.value = s.events itr.value := by
    intro itr hitr
    rw [EpollIoWait.events, hold itr hitr, EpollIoWait.events]
  have hreq : ∀ fd, t.requested fd =
      if (s.netFd n).fd = fd then s.requested fd ||| events else s.requested fd := by
    intro fd
    unfold requested
    have hperm : (t.entries fd).Perm _ := entries_insert_perm hmap
    rw [Flags.union_perm (hperm.map _)]
    have hmapEvents : ((s.entries fd).map fun itr => t.events itr.value) =
        (s.entries fd).map fun itr => s.events itr.value :=
      List.map_congr_left fun itr hitr => holdEvents itr (mem_entries.mp hitr).1
    split
    · rw [List.map_cons, Flags.union_cons, hmapEvents, hevents, BitVec.or_comm]
    · rw [hmapEvents]
  refine ⟨⟨fun itr hitr => ?_, fun itr hitr => ?_, fun itr hitr => ?_, fun m hm => ?_, fun m => ?_,
    ?_, hcount, hfailed, heexist⟩, fun fd hne => ?_⟩
  · rcases (hmem itr).mp hitr with rfl | hitr
    · exact hfd
    · rw [hold itr hitr]
      exact h.key itr hitr
  · rcases (hmem itr).mp hitr with rfl | hitr
    · exact howned
    · rw [hold itr hitr]
      exact h.owner itr hitr
  · rcases (hmem itr).mp hitr with rfl | hitr
    · rw [show t.events n = events from hevents]
      exact hwaits
    · rw [holdEvents itr hitr]
      exact h.waits itr hitr
  · by_cases hmn : m = n
    · rw [hmn]
      exact ⟨_, (hmem _).mpr (.inl rfl), rfl⟩
    · rw [hother m hmn] at hm
      obtain ⟨itr, hitr, hvalue⟩ := h.timer m hm
      exact ⟨itr, (hmem itr).mpr (.inr hitr), hvalue⟩
  · rw [hnotify]
    by_cases hmn : m = n
    · rw [hmn, hfd]
      exact h.foreign n
    · rw [hother m hmn]
      exact h.foreign m
  · rw [hnotify, ← AList.lookup_isSome, hlookup _ (h.foreign n).symm, AList.lookup_isSome]
    exact h.interrupter
  · rw [hnotify] at hne
    have hperm : (t.entries fd).Perm _ := entries_insert_perm hmap
    by_cases hf : (s.netFd n).fd = fd
    · subst hf
      rw [if_pos rfl] at hperm
      obtain ⟨m, hm, hmask⟩ := hself
      constructor
      · apply iff_of_true
        · rw [← AList.lookup_isSome, hm]
          rfl
        · intro hnil
          rw [hnil] at hperm
          exact List.cons_ne_nil _ _ hperm.nil_eq.symm
      · intro m' hm'
        rw [hm] at hm'
        cases hm'
        rw [hreq, if_pos rfl]
        exact hmask
    · rw [if_neg hf] at hperm
      have hmirror := h.mirror fd hne
      constructor
      · rw [← AList.lookup_isSome, hlookup fd (Ne.symm hf), AList.lookup_isSome,
          hmirror.registered]
        exact not_congr ⟨fun hnil => (hnil ▸ hperm).eq_nil, fun hnil => (hnil ▸ hperm).nil_eq.symm⟩
      · intro m hm
        rw [hlookup fd (Ne.symm hf)] at hm
        rw [hreq, if_neg hf]
        exact hmirror.mask m hm

theorem requested_setNetFd {n : Nat} {f : NetFD} {fd : Int}
    (hout : ∀ itr ∈ s.fd_map.nodes, itr.value ≠ n) :
    (s.setNetFd n f).requested fd = s.requested fd := by
  unfold requested
  congr 1
  apply List.map_congr_left
  intro itr hitr
  have hne := hout itr (mem_entries.mp hitr).1
  simp [EpollIoWait.events, EpollIoWait.setNetFd, hne]

theorem oldEvents_eq (itrs : List (Node Int Nat)) :
    s.oldEvents itrs = Flags.union (itrs.map fun itr => s.events itr.value) := by
  have hfold : ∀ (l : List (Node Int Nat)) (old : BitVec 32),
      l.foldl (fun old itr => old ||| s.events itr.value) old =
        old ||| Flags.union (l.map fun itr => s.events itr.value) := by
    intro l
    induction l with
    | nil =>
        intro old
        exact BitVec.or_zero.symm
    | cons itr l ih =>
        intro old
        rw [List.foldl_cons, ih, List.map_cons, Flags.union_cons, BitVec.or_assoc]
  exact (hfold itrs 0).trans BitVec.zero_or

theorem setEvents_fd (s : EpollIoWait) (n : Nat) (e : BitVec 32) :
    ((s.setEvents n e).netFd n).fd = (s.netFd n).fd := by
  simp [setEvents, EpollIoWait.setNetFd]

structure Registered (s : EpollIoWait) (n : Nat) (events : BitVec 32) (t : EpollIoWait) : Prop where
  netFd : t.netFd = (s.setEvents n (events ||| EPOLLET)).netFd
  fd_map : t.fd_map = s.fd_map
  notify : t.notify_socket = s.notify_socket
  others : ∀ fd ≠ (s.netFd n).fd, t.epoll.lookup fd = s.epoll.lookup fd
  mask : ∃ m, t.epoll.lookup (s.netFd n).fd = some m ∧
    m &&& ~~~EPOLLET = s.requested (s.netFd n).fd ||| events
  count : t.evtlist_cnt + 1 = t.epoll.keys.length
  failed : ∀ a ∈ t.failed, a = .positive
  eexist : t.eexist = false
  live : t.halted = false

theorem Mirrored.emplaced {n task : Nat} {events : BitVec 32} {timeout : Int} (h : s.Mirrored)
    (howner : (s.netFd n).owner_task = none) (hwaits : Waits events)
    (hreg : Registered s n events t) :
    ({ t with fd_map := t.fd_map.insert (t.netFd n).fd n }.setNetFd n
      { t.netFd n with
        owner_task := some task
        timer := if timeout > 0 then .armed else (t.netFd n).timer }).Mirrored := by
  have hn : t.netFd n = { s.netFd n with events := toShort (events ||| EPOLLET) } := by
    rw [hreg.netFd]
    exact Function.update_self _ _ _
  apply h.emplace (n := n) howner hwaits
  · show t.fd_map.insert (t.netFd n).fd n = _
    rw [hreg.fd_map, hn]
  · intro m hm
    have hm' : t.netFd m = s.netFd m := by
      rw [hreg.netFd]
      exact Function.update_of_ne hm _ _
    simp [EpollIoWait.setNetFd, hm, hm']
  · simp [EpollIoWait.setNetFd, hn]
  · simp [EpollIoWait.setNetFd]
  · simp only [EpollIoWait.events, EpollIoWait.setNetFd, Function.update_self, hn]
    exact hwaits.ofShort_toShort
  · exact hreg.notify
  · exact hreg.others
  · exact hreg.mask
  · exact hreg.count
  · exact hreg.failed
  · exact hreg.eexist

theorem resize_eq (s : EpollIoWait) :
    ∃ size, s.resize = { s with event_list_size := size } := by
  unfold resize
  split
  · exact ⟨_, rfl⟩
  · exact ⟨s.event_list_size, rfl⟩

theorem or_et_and_not_et {events : BitVec 32} (hwaits : Waits events) :
    (events ||| EPOLLET) &&& ~~~EPOLLET = events := by
  rcases hwaits with rfl | rfl <;> decide

theorem Mirrored.pollsetAddHelp {n : Nat} {events : BitVec 32} (h : s.Mirrored)
    (hlive : s.halted = false) (hwaits : Waits events) (hentries : s.entries (s.netFd n).fd = []) :
    (s.pollsetAddHelp n (events ||| EPOLLET)).2 = true ∧
      Registered s n events (s.pollsetAddHelp n (events ||| EPOLLET)).1 := by
  have hfree : (s.netFd n).fd ∉ s.epoll := by
    rw [(h.mirror _ (h.foreign n)).registered]
    exact not_not_intro hentries
  have hfree' : ((s.setEvents n (events ||| EPOLLET)).netFd n).fd ∉
      (s.setEvents n (events ||| EPOLLET)).epoll := by
    rw [setEvents_fd]
    exact hfree
  have hkey : (s.netFd n).fd ∉ s.epoll.keys := fun hmem => hfree (AList.mem_keys.mpr hmem)
  have hcount := h.count
  unfold EpollIoWait.pollsetAddHelp
  dsimp only
  rw [if_neg hfree']
  refine ⟨rfl, ?_⟩
  obtain ⟨size, hsize⟩ := resize_eq
    { s.setEvents n (events ||| EPOLLET) with
      epoll := (s.setEvents n (events ||| EPOLLET)).epoll.insert
        ((s.setEvents n (events ||| EPOLLET)).netFd n).fd (events ||| EPOLLET)
      evtlist_cnt := (s.setEvents n (events ||| EPOLLET)).evtlist_cnt + 1 }
  rw [hsize, setEvents_fd]
  refine ⟨rfl, rfl, rfl, fun fd hne => AList.lookup_insert_ne hne,
    ⟨_, AList.lookup_insert _, ?_⟩, ?_, h.failed, h.eexist, hlive⟩
  · rw [h.toCoherent.requested_eq_zero.mpr hentries, or_et_and_not_et hwaits]
    exact BitVec.zero_or.symm
  · show s.evtlist_cnt + 1 + 1 = ((s.epoll.insert _ _).keys.length : Int)
    rw [AList.keys_insert, List.erase_of_not_mem hkey, List.length_cons]
    omega

/-- Another entry of a shared descriptor: with assertions, `events > 0` ends the program,
because the trigger mode is the sign bit. -/
theorem Mirrored.pollsetModify {n : Nat} {events old : BitVec 32} (h : s.Mirrored)
    (howner : (s.netFd n).owner_task = none) (hwaits : Waits events)
    (hentries : s.entries (s.netFd n).fd ≠ [])
    (hold : old = s.requested (s.netFd n).fd)
    (ht : t = (s.setEvents n (events ||| EPOLLET)).pollsetModify (s.netFd n).fd
      (old ||| (events ||| EPOLLET))) :
    t.halted = true ∧ t.Mirrored ∨ Registered s n events t := by
  have hset : (s.setEvents n (events ||| EPOLLET)).Mirrored :=
    h.setNetFd (h.unmapped howner) rfl (h.unarmed howner)
  have hmem : (s.netFd n).fd ∈ s.epoll := (h.mirror _ (h.foreign n)).registered.mpr hentries
  have hkey := AList.mem_keys.mp hmem
  have hpos := List.length_pos_of_mem hkey
  have hcount := h.count
  obtain ⟨failed, hfailed, hassert⟩ : ∃ failed : List Assertion, (∀ a ∈ failed, a = .positive) ∧
      (s.setEvents n (events ||| EPOLLET)).assert .positive
        (0 < (old ||| (events ||| EPOLLET)).toInt) =
      { s.setEvents n (events ||| EPOLLET) with failed := failed } := by
    unfold assert
    split
    · exact ⟨s.failed, h.failed, rfl⟩
    · refine ⟨s.failed ++ [.positive], fun a ha => ?_, rfl⟩
      rcases List.mem_append.mp ha with ha | ha
      · exact h.failed a ha
      · exact List.mem_singleton.mp ha
  unfold EpollIoWait.pollsetModify at ht
  dsimp only at ht
  rw [hassert] at ht
  split at ht
  · rename_i hhalted
    subst ht
    exact .inl ⟨hhalted, ⟨hset.key, hset.owner, hset.waits, hset.timer, hset.foreign,
      hset.interrupter, hset.count, hfailed, hset.eexist⟩, fun fd hne =>
        mirrorAt_congr (s := s.setEvents n (events ||| EPOLLET)) rfl rfl (fun _ _ => rfl)
          (hset.mirror fd hne)⟩
  · rename_i hlive
    apply Or.inr
    rw [ht, ctlMod, if_pos (show (s.netFd n).fd ∈ (s.setEvents n (events ||| EPOLLET)).epoll from hmem)]
    refine ⟨rfl, rfl, rfl, fun fd hne => AList.lookup_insert_ne hne,
      ⟨_, AList.lookup_insert _, ?_⟩, ?_, hfailed, h.eexist, Bool.eq_false_iff.mpr hlive⟩
    · have hreq : s.requested (s.netFd n).fd &&& ~~~EPOLLET = s.requested (s.netFd n).fd :=
        h.toCoherent.requested_and_not_et
      rw [hold]
      calc (s.requested (s.netFd n).fd ||| (events ||| EPOLLET)) &&& ~~~EPOLLET
          = (s.requested (s.netFd n).fd &&& ~~~EPOLLET) |||
              ((events ||| EPOLLET) &&& ~~~EPOLLET) := by
            ext i hi
            simp only [BitVec.getElem_and, BitVec.getElem_or, Bool.and_or_distrib_right]
        _ = s.requested (s.netFd n).fd ||| events := by rw [hreq, or_et_and_not_et hwaits]
    · show s.evtlist_cnt + 1 = ((s.epoll.insert _ _).keys.length : Int)
      rw [AList.keys_insert, List.length_cons, List.length_erase_of_mem hkey]
      omega

theorem Mirrored.pollsetAdd {n : Nat} {events : BitVec 32} (h : s.Mirrored)
    (hlive : s.halted = false) (howner : (s.netFd n).owner_task = none) (hwaits : Waits events)
    (halone : (s.netFd n).shared = true ∨ s.entries (s.netFd n).fd = []) :
    s.pollsetAdd n events = (s, false) ∨ (s.pollsetAdd n events).2 = true ∧
      ((s.pollsetAdd n events).1.halted = true ∧ (s.pollsetAdd n events).1.Mirrored ∨
        Registered s n events (s.pollsetAdd n events).1) := by
  unfold EpollIoWait.pollsetAdd
  dsimp only
  split
  · exact .inl rfl
  apply Or.inr
  split
  · rename_i hfirst
    have hentries : s.entries (s.netFd n).fd = [] := by
      rcases hfirst with hunshared | hnil
      · rw [hunshared] at halone
        exact halone.resolve_left nofun
      · exact hnil
    obtain ⟨htrue, hreg⟩ := h.pollsetAddHelp hlive hwaits hentries
    exact ⟨htrue, .inr hreg⟩
  · rename_i hsecond
    have hentries : s.entries (s.netFd n).fd ≠ [] := fun hnil => hsecond (.inr hnil)
    have hold : (s.setEvents n (events ||| EPOLLET)).oldEvents
        ((s.setEvents n (events ||| EPOLLET)).entries (s.netFd n).fd) =
          s.requested (s.netFd n).fd := by
      rw [oldEvents_eq]
      exact requested_setNetFd (h.unmapped howner)
    split
    · exact ⟨rfl, h.pollsetModify howner hwaits hentries hold rfl⟩
    · -- the trigger mode is not among the old events
      rename_i heq
      have hand : s.requested (s.netFd n).fd &&& ~~~EPOLLET = s.requested (s.netFd n).fd :=
        h.toCoherent.requested_and_not_et
      rw [hold, not_not] at heq
      rw [heq, or_et_and_not_et hwaits] at hand
      rcases hwaits with rfl | rfl <;> exact absurd hand (by decide)

theorem Mirrored.poll {n task : Nat} {events : BitVec 32} {timeout : Int} (h : s.Mirrored)
    (hlive : s.halted = false) (howner : (s.netFd n).owner_task = none) (hwaits : Waits events)
    (halone : (s.netFd n).shared = true ∨ s.entries (s.netFd n).fd = []) :
    (s.poll n task events timeout).Mirrored := by
  unfold EpollIoWait.poll
  dsimp only
  rcases h.pollsetAdd hlive howner hwaits halone with hinvalid | ⟨htrue, hhalted | hreg⟩
  · rw [hinvalid, if_pos (.inl rfl)]
    exact h
  · rw [if_pos (.inr hhalted.1)]
    exact hhalted.2
  · rw [if_neg (by simp [htrue, hreg.live])]
    exact h.emplaced howner hwaits hreg

/-! ## Every run -/

/-- The assumptions on the environment: `Poll` is called for reading or for writing, and
`epoll_wait` reports every descriptor once. -/
def assumed (s : EpollIoWait) : PollEvent → Bool
  | .poll _ _ events _ => events == POLLIN || events == POLLOUT
  | .waitLoop reports => decide (reports.map EpollEvent.fd).Nodup && reports.all s.mayReport
  | _ => true

/-- A `NetFD` that is not shared is alone on its descriptor, and an exception is reported
together with all events that are waited for. -/
def clean (s : EpollIoWait) : PollEvent → Bool
  | .poll n _ _ _ => (s.netFd n).shared || (s.entries (s.netFd n).fd).isEmpty
  | .waitLoop reports => reports.all s.complete
  | _ => true

theorem mirrored_make (k : Sockets) (epoll_event_size rlim_max : Nat) (ndebug : Bool) :
    (make k epoll_event_size rlim_max ndebug).Mirrored := by
  refine ⟨⟨nofun, nofun, nofun, fun n hn => ?_, k.distinct, ?_, rfl, nofun, rfl⟩, fun fd hne => ?_⟩
  · cases hn
  · simp [make, AList.mem_keys]
  · have hfree : fd ∉ (make k epoll_event_size rlim_max ndebug).epoll := by
      simp only [make, AList.mem_keys, AList.keys_singleton, List.mem_singleton]
      exact hne
    constructor
    · exact iff_of_false hfree (not_not_intro rfl)
    · intro m hm
      rw [AList.lookup_eq_none.mpr hfree] at hm
      cases hm

theorem Mirrored.step {a : PollEvent} (h : s.Mirrored) (hassumed : s.assumed a = true)
    (hclean : s.clean a = true) (hs : s.step a = some t) : t.Mirrored := by
  unfold EpollIoWait.step at hs
  split at hs
  · cases hs
  rename_i hlive
  have hlive : s.halted = false := by simpa using hlive
  cases a with
  | poll n task events timeout =>
      simp only [Option.ite_none_right_eq_some, Option.some.injEq] at hs
      obtain ⟨howner, rfl⟩ := hs
      apply h.poll hlive howner
      · simpa [assumed, Waits] using hassumed
      · simpa [clean] using hclean
  | waitLoop reports =>
      simp only [Option.ite_none_right_eq_some, Option.some.injEq] at hs
      obtain ⟨-, rfl⟩ := hs
      simp only [assumed, Bool.and_eq_true, decide_eq_true_eq, List.all_eq_true] at hassumed
      simp only [clean, List.all_eq_true] at hclean
      exact h.waitLoop hassumed.1 hassumed.2 hclean
  | timeout n =>
      simp only [Option.ite_none_right_eq_some, Option.some.injEq] at hs
      obtain ⟨harmed, rfl⟩ := hs
      exact h.timeoutCallback hlive harmed
  | pollReturn n =>
      simp only [Option.ite_none_right_eq_some, Option.some.injEq] at hs
      obtain ⟨⟨-, hmapped⟩, rfl⟩ := hs
      refine h.setNetFd ?_ rfl (by simp)
      simpa [mapped] using hmapped

/-- The epoll set, apart from the interrupter, mirrors `fd_map`; no assertion about
`fd_map` or `epoll_ctl` has failed, and no `EPOLL_CTL_ADD` has found its descriptor
registered. -/
structure Mirrors (s : EpollIoWait) : Prop where
  registered : ∀ fd ≠ s.notify_socket, fd ∈ s.epoll ↔ s.entries fd ≠ []
  mask : ∀ fd ≠ s.notify_socket, ∀ m, s.epoll.lookup fd = some m →
    m &&& ~~~EPOLLET = s.requested fd
  count : s.evtlist_cnt = (s.epoll.keys.erase s.notify_socket).length
  assertions : ∀ a ∈ s.failed, a = .positive
  added : s.eexist = false

theorem mirrors_of_clean (k : Sockets) (epoll_event_size rlim_max : Nat) (ndebug : Bool)
    (s : EpollIoWait)
    (h : Reach step (fun s a => s.assumed a = true ∧ s.clean a = true)
      (make k epoll_event_size rlim_max ndebug) s) : s.Mirrors := by
  have hmirrored : s.Mirrored := h.invariant (mirrored_make k epoll_event_size rlim_max ndebug)
    fun _ _ _ hm hc hs => hm.step hc.1 hc.2 hs
  refine ⟨fun fd hfd => (hmirrored.mirror fd hfd).registered,
    fun fd hfd => (hmirrored.mirror fd hfd).mask, ?_, hmirrored.failed, hmirrored.eexist⟩
  have hcount := hmirrored.count
  have hkey := AList.mem_keys.mp hmirrored.interrupter
  have hpos := List.length_pos_of_mem hkey
  rw [List.length_erase_of_mem hkey]
  omega

/-- Two shared `NetFD`s, 0 and 1, on the descriptor 5. -/
def twoShared : Sockets :=
  { fd := fun _ => 5, shared := fun _ => true, notify_socket := 3, distinct := fun _ => by decide }

/-- One of them is served and the other one times out. -/
theorem mirrors_two_shared :
    ∃ s, run step (fun s a => s.assumed a = true ∧ s.clean a = true) (make twoShared 8 64 true)
      [.poll 0 1 POLLIN 0, .poll 1 2 POLLOUT 10, .waitLoop [⟨5, POLLIN⟩, ⟨3, POLLIN⟩],
        .pollReturn 0, .poll 0 1 POLLIN 10, .timeout 1] = some s ∧ s.Mirrors :=
  ⟨_, rfl, mirrors_of_clean twoShared 8 64 true _ (reach_of_run
    [.poll 0 1 POLLIN 0, .poll 1 2 POLLOUT 10, .waitLoop [⟨5, POLLIN⟩, ⟨3, POLLIN⟩],
      .pollReturn 0, .poll 0 1 POLLIN 10, .timeout 1] rfl)⟩

/-- A hang-up is reported with `POLLIN` only: both entries are taken out, and the
descriptor stays registered for `POLLOUT`. -/
theorem not_mirrors_after_hangup :
    ¬ ∀ (k : Sockets) (epoll_event_size rlim_max : Nat) (ndebug : Bool) (s : EpollIoWait),
      Reach step (fun s a => s.assumed a = true) (make k epoll_event_size rlim_max ndebug) s →
        s.Mirrors := by
  intro hall
  obtain ⟨s, hrun, hmem, hentries, hnotify⟩ : ∃ s,
      run step (fun s a => s.assumed a = true) (make twoShared 8 64 true)
        [.poll 0 1 POLLIN 0, .poll 1 2 POLLOUT 0, .waitLoop [⟨5, POLLIN ||| POLLHUP⟩]] =
          some s ∧ 5 ∈ s.epoll ∧ s.entries 5 = [] ∧ s.notify_socket = 3 :=
    ⟨_, rfl, by decide, rfl, rfl⟩
  have hne : (5 : Int) ≠ s.notify_socket := by
    rw [hnotify]
    decide
  exact ((hall twoShared 8 64 true s (reach_of_run _ hrun)).registered 5 hne).mp hmem hentries

end EpollIoWait

end CppGo.Netio
