import CppGo.Netio.Epoll

/-!
# The epoll set mirrors `fd_map`

What `WaitLoop`, the timeouts and `Poll` do to the kernel's set is what they do to the
entries of `fd_map`, as long as an exception is reported only together with all events
that are waited for.
-/

namespace CppGo.Netio

open CppGo.Lib CppGo.Lib.Machine

namespace EpollIoWait

variable {s t : EpollIoWait}

def requested (s : EpollIoWait) (fd : Int) : BitVec 32 :=
  Flags.union ((s.entries fd).map fun itr => s.events itr.value)

theorem mem_entries {fd : Int} {itr : Node Int Nat} :
    itr ∈ s.entries fd ↔ itr ∈ s.fd_map.nodes ∧ itr.key = fd := by
  simp [entries]

/-! ## The loops over the entries of a descriptor -/

structure Keeps (s t : EpollIoWait) : Prop where
  epoll : t.epoll = s.epoll
  count : t.evtlist_cnt = s.evtlist_cnt
  notify : t.notify_socket = s.notify_socket
  failed : t.failed = s.failed
  eexist : t.eexist = s.eexist
  fd : ∀ n, (t.netFd n).fd = (s.netFd n).fd
  events : ∀ n, t.events n = s.events n
  owner : ∀ n, (t.netFd n).owner_task = (s.netFd n).owner_task

theorem Keeps.refl : Keeps s s := by
  constructor <;> intros <;> rfl

theorem Keeps.trans {u : EpollIoWait} (h : Keeps s t) (h' : Keeps t u) : Keeps s u where
  epoll := h'.epoll.trans h.epoll
  count := h'.count.trans h.count
  notify := h'.notify.trans h.notify
  failed := h'.failed.trans h.failed
  eexist := h'.eexist.trans h.eexist
  fd n := (h'.fd n).trans (h.fd n)
  events n := (h'.events n).trans (h.events n)
  owner n := (h'.owner n).trans (h.owner n)

theorem keeps_wake (comeEvents : BitVec 32) (itr : Node Int Nat) :
    Keeps s (s.wake comeEvents itr) := by
  have hnet : ∀ n, ((s.wake comeEvents itr).netFd n).fd = (s.netFd n).fd ∧
      ((s.wake comeEvents itr).netFd n).events = (s.netFd n).events ∧
      ((s.wake comeEvents itr).netFd n).owner_task = (s.netFd n).owner_task := by
    intro n
    by_cases hn : n = itr.value
    · subst hn
      simp [wake, setNetFd, removeNetFd2TaskRunnable]
    · simp [wake, setNetFd, removeNetFd2TaskRunnable, hn]
  refine ⟨rfl, rfl, rfl, rfl, rfl, fun n => (hnet n).1, fun n => ?_, fun n => (hnet n).2.2⟩
  rw [events, (hnet n).2.1, events]

theorem timer_wake {comeEvents : BitVec 32} {itr : Node Int Nat} {n : Nat}
    (h : ((s.wake comeEvents itr).netFd n).timer = .armed) :
    (s.netFd n).timer = .armed ∧ n ≠ itr.value := by
  by_cases hn : n = itr.value
  · rw [hn] at h
    simp [wake, setNetFd] at h
  · refine ⟨?_, hn⟩
    simpa [wake, setNetFd, removeNetFd2TaskRunnable, hn] using h

structure Served (comeEvents : BitVec 32) (itrs : List (Node Int Nat)) (s t : EpollIoWait) :
    Prop extends Keeps s t where
  nodes : t.fd_map.nodes = s.fd_map.nodes.filter fun n =>
    !itrs.any fun itr => itr.id = n.id && wants comeEvents (s.events itr.value)
  timer : ∀ n, (t.netFd n).timer = .armed → (s.netFd n).timer = .armed ∧
    ∀ itr ∈ itrs, itr.value = n → wants comeEvents (s.events itr.value) = false

theorem serve_spec (comeEvents : BitVec 32) (itrs : List (Node Int Nat)) (s : EpollIoWait)
    (modEvents : BitVec 32) :
    Served comeEvents itrs s (serve comeEvents itrs s modEvents).1 ∧
      (serve comeEvents itrs s modEvents).2 =
        modEvents ||| Flags.union (itrs.map fun itr => s.events itr.value) := by
  induction itrs generalizing s modEvents with
  | nil =>
      refine ⟨⟨.refl, ?_, fun n hn => ⟨hn, nofun⟩⟩, ?_⟩
      · simp [serve]
      · simp [serve]
  | cons itr rest ih =>
      have hstep : Keeps s
          (if wants comeEvents (s.events itr.value) then s.wake comeEvents itr else s) := by
        split
        · exact keeps_wake comeEvents itr
        · exact .refl
      obtain ⟨hserved, hmod⟩ := ih
        (if wants comeEvents (s.events itr.value) then s.wake comeEvents itr else s)
        (modEvents ||| s.events itr.value)
      refine ⟨⟨hstep.trans hserved.toKeeps, ?_, fun n hn => ?_⟩, ?_⟩
      · show (serve comeEvents rest _ _).1.fd_map.nodes = _
        rw [hserved.nodes]
        simp only [hstep.events]
        split
        · rename_i hwants
          show (s.fd_map.erase itr.id).nodes.filter _ = _
          rw [Multimap.filter_erase]
          apply List.filter_congr
          intro n _
          simp only [List.any_cons, hwants, Bool.and_true, Bool.not_or]
        · rename_i hwants
          apply List.filter_congr
          intro n _
          simp [hwants]
      · obtain ⟨harmed, hrest⟩ := hserved.timer n hn
        simp only [hstep.events] at hrest
        by_cases hwants : wants comeEvents (s.events itr.value) = true
        · rw [if_pos hwants] at harmed
          obtain ⟨harmed, hne⟩ := timer_wake harmed
          refine ⟨harmed, fun k hk hkn => ?_⟩
          rcases List.mem_cons.mp hk with rfl | hk
          · exact absurd hkn.symm hne
          · exact hrest k hk hkn
        · rw [if_neg hwants] at harmed
          refine ⟨harmed, fun k hk hkn => ?_⟩
          rcases List.mem_cons.mp hk with rfl | hk
          · simpa using hwants
          · exact hrest k hk hkn
      · show (serve comeEvents rest _ _).2 = _
        rw [hmod]
        simp only [hstep.events, List.map_cons, Flags.union_cons, BitVec.or_assoc]

/-- The loop of `PollsetTimeoutDel` takes out the elements of one `NetFD`. -/
theorem dropNetFd_spec (n : Nat) (itrs : List (Node Int Nat)) (s : EpollIoWait)
    (modEvents : BitVec 32) :
    Keeps s (dropNetFd n itrs s modEvents).1 ∧
      (dropNetFd n itrs s modEvents).1.netFd = s.netFd ∧
      (dropNetFd n itrs s modEvents).1.fd_map.nodes = (s.fd_map.nodes.filter fun k =>
        !itrs.any fun itr => itr.id = k.id && itr.value = n) ∧
      (dropNetFd n itrs s modEvents).2 = modEvents |||
        Flags.union ((itrs.filter fun itr => itr.value ≠ n).map fun itr => s.events itr.value) := by
  induction itrs generalizing s modEvents with
  | nil => exact ⟨.refl, rfl, by simp [dropNetFd], by simp [dropNetFd]⟩
  | cons itr rest ih =>
      unfold dropNetFd
      split
      · rename_i hvalue
        obtain ⟨hkeeps, hnet, hnodes, hmod⟩ :=
          ih { s with fd_map := s.fd_map.erase itr.id } modEvents
        have herase : Keeps s { s with fd_map := s.fd_map.erase itr.id } := by
          constructor <;> intros <;> rfl
        refine ⟨herase.trans hkeeps, hnet, ?_, ?_⟩
        · rw [hnodes]
          show (s.fd_map.erase itr.id).nodes.filter _ = _
          rw [Multimap.filter_erase]
          apply List.filter_congr
          intro k _
          simp only [List.any_cons, hvalue, decide_true, Bool.and_true, Bool.not_or]
        · rw [hmod, List.filter_cons_of_neg (by simpa using hvalue)]
          rfl
      · rename_i hvalue
        obtain ⟨hkeeps, hnet, hnodes, hmod⟩ := ih s (modEvents ||| s.events itr.value)
        refine ⟨hkeeps, hnet, ?_, ?_⟩
        · rw [hnodes]
          simp [hvalue]
        · rw [hmod, List.filter_cons_of_pos (by simpa using hvalue), List.map_cons,
            Flags.union_cons, BitVec.or_assoc]

/-! ## The mirror -/

def Waits (events : BitVec 32) : Prop := events = POLLIN ∨ events = POLLOUT

theorem Waits.isFlag {events : BitVec 32} (h : Waits events) : Flags.IsFlag events := by
  rcases h with rfl | rfl
  · exact ⟨0, by decide, by decide⟩
  · exact ⟨2, by decide, by decide⟩

theorem Waits.and_not_et {events : BitVec 32} (h : Waits events) :
    events &&& ~~~EPOLLET = events := by
  rcases h with rfl | rfl <;> decide

/-- The trigger mode is lost in the `short` of the `pollfd`, the events are not. -/
theorem Waits.ofShort_toShort {events : BitVec 32} (h : Waits events) :
    ofShort (toShort (events ||| EPOLLET)) = events := by
  rcases h with rfl | rfl <;> decide

/-- The kernel's set agrees with the entries of a descriptor. -/
structure MirrorAt (s : EpollIoWait) (fd : Int) : Prop where
  registered : fd ∈ s.epoll ↔ s.entries fd ≠ []
  mask : ∀ m, s.epoll.lookup fd = some m → m &&& ~~~EPOLLET = s.requested fd

structure Coherent (s : EpollIoWait) : Prop where
  key : ∀ itr ∈ s.fd_map.nodes, (s.netFd itr.value).fd = itr.key
  owner : ∀ itr ∈ s.fd_map.nodes, (s.netFd itr.value).owner_task ≠ none
  waits : ∀ itr ∈ s.fd_map.nodes, Waits (s.events itr.value)
  timer : ∀ n, (s.netFd n).timer = .armed → ∃ itr ∈ s.fd_map.nodes, itr.value = n
  foreign : ∀ n, (s.netFd n).fd ≠ s.notify_socket
  interrupter : s.notify_socket ∈ s.epoll
  count : s.evtlist_cnt + 1 = s.epoll.keys.length
  failed : ∀ a ∈ s.failed, a = .positive
  eexist : s.eexist = false

structure Mirrored (s : EpollIoWait) : Prop extends Coherent s where
  mirror : ∀ fd ≠ s.notify_socket, MirrorAt s fd

section Requested

variable {fd : Int}

theorem Coherent.waits_of_mem (h : s.Coherent) {e : BitVec 32}
    (he : e ∈ (s.entries fd).map fun itr => s.events itr.value) : Waits e := by
  obtain ⟨itr, hitr, rfl⟩ := List.mem_map.mp he
  exact h.waits itr (mem_entries.mp hitr).1

theorem Coherent.requested_and_not_et (h : s.Coherent) :
    s.requested fd &&& ~~~EPOLLET = s.requested fd :=
  Flags.union_and_not_of_disjoint fun _ he => (h.waits_of_mem he).and_not_et

theorem Coherent.requested_eq_zero (h : s.Coherent) : s.requested fd = 0 ↔ s.entries fd = [] := by
  unfold requested
  rw [Flags.union_eq_zero_iff]
  constructor
  · intro hall
    rw [List.eq_nil_iff_forall_not_mem]
    intro itr hitr
    have hmem : s.events itr.value ∈ (s.entries fd).map fun itr => s.events itr.value :=
      List.mem_map_of_mem hitr
    exact (h.waits_of_mem hmem).isFlag.ne_zero (hall _ hmem)
  · intro hnil
    simp [hnil]

end Requested

theorem mirrorAt_congr {fd : Int} (hlookup : t.epoll.lookup fd = s.epoll.lookup fd)
    (hentries : t.entries fd = s.entries fd)
    (hevents : ∀ itr ∈ s.entries fd, t.events itr.value = s.events itr.value)
    (h : MirrorAt s fd) : MirrorAt t fd := by
  have hreq : t.requested fd = s.requested fd := by
    unfold requested
    rw [hentries, List.map_congr_left hevents]
  constructor
  · rw [← AList.lookup_isSome, hlookup, AList.lookup_isSome, hentries]
    exact h.registered
  · intro m hm
    rw [hreq]
    exact h.mask m (hlookup ▸ hm)

theorem Coherent.of_keeps (h : s.Coherent) (hkeeps : Keeps s t)
    (hnodes : t.fd_map.nodes ⊆ s.fd_map.nodes)
    (htimer : ∀ n, (t.netFd n).timer = .armed → ∃ itr ∈ t.fd_map.nodes, itr.value = n) :
    t.Coherent where
  key itr hitr := by
    rw [hkeeps.fd]
    exact h.key itr (hnodes hitr)
  owner itr hitr := by
    rw [hkeeps.owner]
    exact h.owner itr (hnodes hitr)
  waits itr hitr := by
    rw [hkeeps.events]
    exact h.waits itr (hnodes hitr)
  timer := htimer
  foreign n := by
    rw [hkeeps.fd, hkeeps.notify]
    exact h.foreign n
  interrupter := by
    rw [hkeeps.notify, hkeeps.epoll]
    exact h.interrupter
  count := by
    rw [hkeeps.count, hkeeps.epoll]
    exact h.count
  failed := by
    rw [hkeeps.failed]
    exact h.failed
  eexist := by
    rw [hkeeps.eexist]
    exact h.eexist

theorem Mirrored.of_keeps (h : s.Mirrored) (hkeeps : Keeps s t) (hmap : t.fd_map = s.fd_map)
    (htimer : ∀ n, (t.netFd n).timer = .armed → (s.netFd n).timer = .armed) : t.Mirrored := by
  refine ⟨h.toCoherent.of_keeps hkeeps (by rw [hmap]; exact List.Subset.refl _) fun n hn => ?_,
    fun fd hfd => ?_⟩
  · rw [hmap]
    exact h.timer n (htimer n hn)
  · rw [hkeeps.notify] at hfd
    have hentries : t.entries fd = s.entries fd := by rw [entries, hmap, entries]
    exact mirrorAt_congr (by rw [hkeeps.epoll]) hentries (fun itr _ => hkeeps.events _)
      (h.mirror fd hfd)

theorem Mirrored.setNetFd (h : s.Mirrored) {n : Nat} {f : NetFD}
    (hout : ∀ itr ∈ s.fd_map.nodes, itr.value ≠ n) (hfd : f.fd = (s.netFd n).fd)
    (htimer : f.timer ≠ .armed) : (s.setNetFd n f).Mirrored := by
  have hnet : ∀ m ≠ n, (s.setNetFd n f).netFd m = s.netFd m :=
    fun m hm => Function.update_of_ne hm _ _
  have hself : (s.setNetFd n f).netFd n = f := Function.update_self _ _ _
  have hevents : ∀ itr ∈ s.fd_map.nodes, (s.setNetFd n f).events itr.value =
      s.events itr.value := by
    intro itr hitr
    rw [events, hnet _ (hout itr hitr), events]
  refine ⟨⟨fun itr hitr => ?_, fun itr hitr => ?_, fun itr hitr => ?_, fun m hm => ?_, fun m => ?_,
    h.interrupter, h.count, h.failed, h.eexist⟩, fun fd hne => ?_⟩
  · rw [hnet _ (hout itr hitr)]
    exact h.key itr hitr
  · rw [hnet _ (hout itr hitr)]
    exact h.owner itr hitr
  · rw [hevents itr hitr]
    exact h.waits itr hitr
  · by_cases hmn : m = n
    · rw [hmn, hself] at hm
      exact absurd hm htimer
    · rw [hnet m hmn] at hm
      exact h.timer m hm
  · by_cases hmn : m = n
    · rw [hmn, hself, hfd]
      exact h.foreign n
    · rw [hnet m hmn]
      exact h.foreign m
  · exact mirrorAt_congr (s := s) rfl rfl (fun itr hitr => hevents itr (mem_entries.mp hitr).1)
      (h.mirror fd hne)

/-- After the entries of a descriptor have changed, its registration follows. -/
theorem Coherent.settle {fd : Int} {modEvents : BitVec 32} (h : t.Coherent)
    (hfd : fd ≠ t.notify_socket) (hmem : fd ∈ t.epoll) (hmod : modEvents = t.requested fd)
    (hothers : ∀ fd' ≠ t.notify_socket, fd' ≠ fd → MirrorAt t fd') :
    (t.settle fd modEvents).Mirrored := by
  have hkey : fd ∈ t.epoll.keys := AList.mem_keys.mp hmem
  have hcount := h.count
  by_cases hzero : modEvents = 0
  · have hs : t.settle fd modEvents =
        { t with epoll := t.epoll.erase fd, evtlist_cnt := t.evtlist_cnt - 1 } := by
      unfold EpollIoWait.settle ctlDel
      rw [if_pos hzero, if_pos hmem]
    rw [hs]
    refine ⟨⟨h.key, h.owner, h.waits, h.timer, h.foreign, ?_, ?_, h.failed, h.eexist⟩,
      fun fd' hne => ?_⟩
    · exact AList.mem_erase.mpr ⟨hfd.symm, h.interrupter⟩
    · show t.evtlist_cnt - 1 + 1 = ((t.epoll.erase fd).keys.length : Int)
      have hpos := List.length_pos_of_mem hkey
      rw [AList.keys_erase, List.length_erase_of_mem hkey]
      omega
    · by_cases hfd' : fd' = fd
      · have hnil := h.requested_eq_zero.mp (hmod.symm.trans hzero)
        subst hfd'
        constructor
        · refine iff_of_false (fun hin => (AList.mem_erase.mp hin).1 rfl) ?_
          exact not_not_intro hnil
        · intro m hm
          rw [AList.lookup_erase] at hm
          cases hm
      · exact mirrorAt_congr (AList.lookup_erase_ne hfd') rfl (fun _ _ => rfl)
          (hothers fd' hne hfd')
  · have hs : t.settle fd modEvents = { t with epoll := t.epoll.insert fd modEvents } := by
      unfold EpollIoWait.settle ctlMod
      rw [if_neg hzero, if_pos hmem]
    rw [hs]
    refine ⟨⟨h.key, h.owner, h.waits, h.timer, h.foreign, ?_, ?_, h.failed, h.eexist⟩,
      fun fd' hne => ?_⟩
    · exact (AList.mem_insert _).mpr (.inr h.interrupter)
    · show t.evtlist_cnt + 1 = ((t.epoll.insert fd modEvents).keys.length : Int)
      have hpos := List.length_pos_of_mem hkey
      rw [AList.keys_insert, List.length_cons, List.length_erase_of_mem hkey]
      omega
    · by_cases hfd' : fd' = fd
      · subst hfd'
        constructor
        · apply iff_of_true ((AList.mem_insert _).mpr (.inl rfl))
          intro hnil
          rw [hmod] at hzero
          exact hzero (h.requested_eq_zero.mpr hnil)
        · intro m hm
          have hm : (t.epoll.insert fd' modEvents).lookup fd' = some m := hm
          rw [AList.lookup_insert] at hm
          cases hm
          rw [hmod]
          exact h.requested_and_not_et
      · exact mirrorAt_congr (AList.lookup_insert_ne hfd') rfl (fun _ _ => rfl)
          (hothers fd' hne hfd')

end EpollIoWait

end CppGo.Netio
