import CppGo.Netio.EpollContract

/-!
# Whom `WaitLoop` wakes

The loop of `WaitLoop` with its iterator, which it advances before it erases the element,
and what a pass over the reported events does to the `NetFD`s.
-/

namespace CppGo.Netio

open CppGo.Lib

namespace EpollIoWait

variable {s t : EpollIoWait} {e : EpollEvent} {reports : List EpollEvent} {n : Nat}

/-! ## The iterator -/

/-- The loop over the elements of a descriptor from an iterator on, for at most `fuel`
rounds.  The iterator is read and advanced while its element is in the map, or there is no
result. -/
def serveFrom (fd : Int) (comeEvents : BitVec 32) :
    Nat → Option (Node Int Nat) → EpollIoWait → BitVec 32 → Option (EpollIoWait × BitVec 32)
  | _, none, s, modEvents => some (s, modEvents)
  | 0, some _, _, _ => none
  | fuel + 1, some itr, s, modEvents =>
      if s.fd_map.contains itr.id then
        if itr.key = fd then
          let next := (s.fd_map.after itr.id).head?
          let events := s.events itr.value
          let s := if wants comeEvents events then s.wake comeEvents itr else s
          serveFrom fd comeEvents fuel next s (modEvents ||| events)
        else some (s, modEvents)
      else none

def reportFrom (s : EpollIoWait) (e : EpollEvent) : Option EpollIoWait :=
  if s.halted then some s
  else if e.fd = s.notify_socket then some s
  else
    let itr := (s.entries e.fd).head?
    let s := s.assert .reported itr.isSome
    if s.halted then some s
    else
      (serveFrom e.fd e.events s.fd_map.nodes.length itr s 0).map fun r =>
        r.1.settle e.fd (r.2 &&& ~~~e.events)

def waitLoopFrom (s : EpollIoWait) (reports : List EpollEvent) : Option EpollIoWait :=
  reports.foldlM reportFrom s

/-- The loop goes over the elements that the descriptor had before. -/
theorem serveFrom_eq {fd : Int} {comeEvents modEvents : BitVec 32} {fuel : Nat}
    {pre itrs post : List (Node Int Nat)} (hnodes : s.fd_map.nodes = pre ++ (itrs ++ post))
    (hkey : ∀ itr ∈ itrs, itr.key = fd) (hpost : ∀ itr ∈ post, itr.key ≠ fd)
    (hfuel : (itrs ++ post).length ≤ fuel) :
    serveFrom fd comeEvents fuel (itrs ++ post).head? s modEvents =
      some (serve comeEvents itrs s modEvents) := by
  induction itrs generalizing s pre modEvents fuel with
  | nil =>
      cases post with
      | nil =>
          unfold serveFrom
          rfl
      | cons itr post =>
          obtain ⟨fuel, rfl⟩ : ∃ k, fuel = k + 1 := ⟨fuel - 1, by simp at hfuel; omega⟩
          have hvalid : s.fd_map.contains itr.id = true :=
            Multimap.contains_iff.mpr ⟨itr, by simp [hnodes], rfl⟩
          rw [List.nil_append, List.head?_cons, serveFrom, if_pos hvalid,
            if_neg (hpost itr List.mem_cons_self)]
          rfl
  | cons itr itrs ih =>
      obtain ⟨fuel, rfl⟩ : ∃ k, fuel = k + 1 := ⟨fuel - 1, by simp at hfuel; omega⟩
      obtain ⟨hitr, hkey⟩ := List.forall_mem_cons.mp hkey
      have hfuel : (itrs ++ post).length ≤ fuel := by simpa using hfuel
      have hvalid : s.fd_map.contains itr.id = true :=
        Multimap.contains_iff.mpr ⟨itr, by simp [hnodes], rfl⟩
      have hafter : s.fd_map.after itr.id = itrs ++ post := by
        rw [Multimap.after, Multimap.starting_of_split hnodes, List.tail_cons]
        rfl
      rw [List.cons_append, List.head?_cons, serveFrom, if_pos hvalid, if_pos hitr, serve, hafter]
      dsimp only
      split
      · -- the element is erased, and `itr` is on the next one already
        exact ih (Multimap.nodes_erase_of_split hnodes) hkey hfuel
      · have hnodes : s.fd_map.nodes = (pre ++ [itr]) ++ (itrs ++ post) := by
          rw [hnodes]
          simp
        exact ih hnodes hkey hfuel

theorem serveFrom_entries (fd : Int) (comeEvents modEvents : BitVec 32) :
    serveFrom fd comeEvents s.fd_map.nodes.length (s.entries fd).head? s modEvents =
      some (serve comeEvents (s.entries fd) s modEvents) := by
  obtain ⟨pre, post, hsplit, -, hpost⟩ := Multimap.exists_split_of_sorted s.fd_map.sorted fd
  have hnodes : s.fd_map.nodes = pre ++ (s.entries fd ++ post) := by
    rw [← List.append_assoc]
    exact hsplit
  have hkey : ∀ itr ∈ s.entries fd, itr.key = fd := fun itr hitr => (mem_entries.mp hitr).2
  cases hentries : s.entries fd with
  | nil =>
      unfold serveFrom
      rfl
  | cons itr itrs =>
      rw [hentries] at hnodes hkey
      have hfuel : (itr :: itrs ++ post).length ≤ s.fd_map.nodes.length := by
        have hlength := congrArg List.length hnodes
        rw [List.length_append] at hlength
        omega
      exact serveFrom_eq hnodes hkey (fun k hk => (hpost k hk).ne') hfuel

theorem reportFrom_eq (s : EpollIoWait) (e : EpollEvent) : s.reportFrom e = some (s.report e) := by
  unfold reportFrom report
  split
  · rfl
  split
  · rfl
  have hsome : (s.entries e.fd).head?.isSome = !(s.entries e.fd).isEmpty := by
    cases s.entries e.fd <;> rfl
  have hentries : (s.assert .reported (!(s.entries e.fd).isEmpty)).entries e.fd =
      s.entries e.fd := by
    unfold assert
    split <;> rfl
  dsimp only
  rw [hsome]
  generalize s.assert .reported (!(s.entries e.fd).isEmpty) = u at hentries ⊢
  split
  · rfl
  · rw [← hentries, serveFrom_entries]
    rfl

/-- The iterator is never used after its element has been erased, and the loops end. -/
theorem waitLoopFrom_eq (s : EpollIoWait) (reports : List EpollEvent) :
    s.waitLoopFrom reports = some (s.waitLoop reports) := by
  induction reports generalizing s with
  | nil => rfl
  | cons e reports ih =>
      rw [waitLoopFrom, List.foldlM_cons, reportFrom_eq]
      exact ih (s.report e)

end EpollIoWait

/-! ## The wake set -/

def NetFD.interest (f : NetFD) : BitVec 32 := f.events.setWidth 32

def EpollEvent.concerns (e : EpollEvent) (f : NetFD) : Bool :=
  f.interest &&& e.events != 0 || e.events &&& POLLERR != 0 || e.events &&& POLLHUP != 0 ||
    e.events &&& POLLRDHUP != 0 || e.events &&& POLLNVAL != 0

def NetFD.woken (f : NetFD) (comeEvents : BitVec 32) : NetFD :=
  { f with
    revents := toShort ((ofShort f.events &&& comeEvents) ||| (comeEvents &&& POLL_EXCEPTION))
    timer := .none }

/-- The `NetFD` has asked for some of `POLLIN`, `POLLOUT` and `POLLPRI`, and for nothing else. -/
structure NetFD.Asks (f : NetFD) : Prop where
  nonzero : f.interest ≠ 0
  subset : f.interest &&& ~~~(POLLIN ||| POLLOUT ||| POLLPRI) = 0

section Masks

variable {f : NetFD} {e : EpollEvent}

/-- The sign of `short` is not set, so nothing is added where it is widened. -/
theorem NetFD.Asks.ofShort_events (h : f.Asks) : ofShort f.events = f.interest := by
  have hmsb : f.events.msb = false := by
    have hbit := congrArg (BitVec.getLsbD · 15) h.subset
    have hmask : (~~~(POLLIN ||| POLLOUT ||| POLLPRI)).getLsbD 15 = true := by decide
    rw [BitVec.getLsbD_and, hmask, Bool.and_true, NetFD.interest] at hbit
    simpa [BitVec.msb_eq_getLsbD_last, BitVec.getLsbD_setWidth] using hbit
  exact BitVec.signExtend_eq_setWidth_of_msb_false hmsb

theorem exception_eq_zero_iff (x : BitVec 32) :
    x &&& POLL_EXCEPTION = 0 ↔
      ((x &&& POLLERR = 0 ∧ x &&& POLLHUP = 0) ∧ x &&& POLLRDHUP = 0) ∧ x &&& POLLNVAL = 0 := by
  have hor : ∀ a b : BitVec 32, a ||| b = 0 ↔ a = 0 ∧ b = 0 := fun _ _ => BitVec.or_eq_zero_iff
  rw [POLL_EXCEPTION, BitVec.and_or_distrib_left, BitVec.and_or_distrib_left,
    BitVec.and_or_distrib_left, hor, hor, hor]

theorem NetFD.Asks.wants_eq (h : f.Asks) :
    EpollIoWait.wants e.events (ofShort f.events) = e.concerns f := by
  rw [h.ofShort_events, Bool.eq_iff_iff]
  unfold EpollIoWait.wants EpollEvent.concerns
  simp only [Bool.or_eq_true, bne_iff_ne, ne_eq, exception_eq_zero_iff,
    BitVec.and_comm e.events f.interest]
  tauto

theorem NetFD.Asks.revents_woken (h : f.Asks) (comeEvents : BitVec 32) :
    (f.woken comeEvents).revents.setWidth 32 =
      (f.interest &&& comeEvents) ||| (comeEvents &&& POLL_EXCEPTION) := by
  have hhigh : ∀ i, 16 ≤ i → POLL_EXCEPTION.getLsbD i = false := by
    intro i hi
    by_cases hlt : i < 32
    · revert i
      decide
    · exact BitVec.getLsbD_of_ge _ _ (by omega)
  rw [NetFD.woken, h.ofShort_events, toShort]
  ext i hi
  rw [BitVec.getElem_setWidth, BitVec.getLsbD_setWidth]
  by_cases hlt : i < 16
  · simp [hlt, BitVec.getLsbD_eq_getElem hi]
  · have hinterest : f.interest.getLsbD i = false := by
      rw [NetFD.interest, BitVec.getLsbD_setWidth, BitVec.getLsbD_of_ge _ _ (by omega),
        Bool.and_false]
    have hzero := hhigh i (by omega)
    rw [BitVec.getLsbD_eq_getElem hi] at hinterest hzero
    simp [hlt, hinterest, hzero]

end Masks

namespace EpollIoWait

variable {s t : EpollIoWait} {e : EpollEvent} {reports : List EpollEvent} {n : Nat}

def wakes (s : EpollIoWait) (e : EpollEvent) (itr : Node Int Nat) : Bool :=
  e.fd != s.notify_socket && itr.key == e.fd && e.concerns (s.netFd itr.value)

def wakeups (s : EpollIoWait) (e : EpollEvent) : List (Node Int Nat) :=
  s.fd_map.nodes.filter (s.wakes e)

/-- Every `NetFD` of `fd_map` has asked for something, and a suspended task of its own waits
for it. -/
structure Waiting (s : EpollIoWait) : Prop where
  asks : ∀ itr ∈ s.fd_map.nodes, (s.netFd itr.value).Asks
  suspended : ∀ itr ∈ s.fd_map.nodes, (s.netFd itr.value).owner_task.isSome
  own : ∀ itr ∈ s.fd_map.nodes, ∀ itr' ∈ s.fd_map.nodes,
    (s.netFd itr.value).owner_task = (s.netFd itr'.value).owner_task → itr = itr'

/-- `epoll_wait` reports registered descriptors only, and each once; they are the
interrupter's and those of `fd_map`. -/
structure Reports (s : EpollIoWait) (reports : List EpollEvent) : Prop where
  distinct : (reports.map EpollEvent.fd).Nodup
  registered : ∀ e ∈ reports, e.fd ∈ s.epoll
  present : ∀ e ∈ reports, e.fd = s.notify_socket ∨ s.entries e.fd ≠ []

structure Passed (s t : EpollIoWait) (reports : List EpollEvent) : Prop where
  pushed : t.pushed = s.pushed ++
    (reports.flatMap s.wakeups).filterMap fun itr => (s.netFd itr.value).owner_task
  nodes : t.fd_map.nodes = s.fd_map.nodes.filter fun itr => !reports.any fun e => s.wakes e itr
  woken : ∀ e ∈ reports, ∀ itr ∈ s.wakeups e,
    t.netFd itr.value = (s.netFd itr.value).woken e.events
  others : ∀ n, (∀ e ∈ reports, ∀ itr ∈ s.wakeups e, itr.value ≠ n) → t.netFd n = s.netFd n
  failed : t.failed = s.failed

/-- What an event leaves as it is for the events behind it. -/
structure Apart (s t : EpollIoWait) (fd : Int) : Prop where
  notify : t.notify_socket = s.notify_socket
  ndebug : t.ndebug = s.ndebug
  epoll : ∀ fd' ≠ fd, fd' ∈ s.epoll → fd' ∈ t.epoll

/-! ## One event -/

theorem mem_wakeups {itr : Node Int Nat} :
    itr ∈ s.wakeups e ↔ itr ∈ s.fd_map.nodes ∧ s.wakes e itr = true :=
  List.mem_filter

theorem wakes_key {itr : Node Int Nat} (h : s.wakes e itr = true) : itr.key = e.fd := by
  unfold wakes at h
  simp only [Bool.and_eq_true, beq_iff_eq] at h
  exact h.1.2

theorem netFd_wake (comeEvents : BitVec 32) (itr : Node Int Nat) (n : Nat) :
    (s.wake comeEvents itr).netFd n =
      if itr.value = n then (s.netFd n).woken comeEvents else s.netFd n := by
  split
  · rename_i heq
    subst heq
    simp [wake, setNetFd, removeNetFd2TaskRunnable, NetFD.woken]
  · rename_i hne
    simp [wake, setNetFd, removeNetFd2TaskRunnable, Ne.symm hne]

theorem pushed_wake (comeEvents : BitVec 32) (itr : Node Int Nat) :
    (s.wake comeEvents itr).pushed = s.pushed ++ (s.netFd itr.value).owner_task.toList := by
  simp [wake, setNetFd, removeNetFd2TaskRunnable]

theorem pushed_serve (comeEvents : BitVec 32) (itrs : List (Node Int Nat)) (s : EpollIoWait)
    (modEvents : BitVec 32) :
    (serve comeEvents itrs s modEvents).1.pushed = s.pushed ++
      (itrs.filter fun itr => wants comeEvents (s.events itr.value)).filterMap
        fun itr => (s.netFd itr.value).owner_task := by
  induction itrs generalizing s modEvents with
  | nil => simp [serve]
  | cons itr itrs ih =>
      rw [serve, ih]
      split
      · rename_i hwants
        have hkeeps := @keeps_wake s comeEvents itr
        simp only [hkeeps.events, hkeeps.owner, pushed_wake]
        rw [List.filter_cons, if_pos hwants, List.append_assoc]
        congr 1
        rw [List.filterMap_cons]
        cases (s.netFd itr.value).owner_task <;> rfl
      · rename_i hwants
        rw [List.filter_cons, if_neg hwants]

theorem netFd_serve (comeEvents : BitVec 32) (itrs : List (Node Int Nat)) (s : EpollIoWait)
    (modEvents : BitVec 32) (n : Nat) :
    (serve comeEvents itrs s modEvents).1.netFd n =
      if itrs.any (fun itr => itr.value = n && wants comeEvents (s.events itr.value))
      then (s.netFd n).woken comeEvents else s.netFd n := by
  induction itrs generalizing s modEvents with
  | nil => simp [serve]
  | cons itr itrs ih =>
      rw [serve, ih]
      by_cases hwants : wants comeEvents (s.events itr.value) = true
      · rw [if_pos hwants]
        simp only [(@keeps_wake s comeEvents itr).events, netFd_wake, List.any_cons, hwants,
          Bool.and_true]
        by_cases heq : itr.value = n
        · simp only [heq, if_true, decide_true, Bool.true_or]
          -- a second element of this `NetFD` would do the same again
          split <;> rfl
        · simp only [heq, if_false, decide_false, Bool.false_or]
      · rw [if_neg hwants]
        simp only [List.any_cons, hwants, Bool.and_false, Bool.false_or]

theorem serve_ndebug (comeEvents : BitVec 32) (itrs : List (Node Int Nat)) (s : EpollIoWait)
    (modEvents : BitVec 32) : (serve comeEvents itrs s modEvents).1.ndebug = s.ndebug := by
  induction itrs generalizing s modEvents with
  | nil => rfl
  | cons itr itrs ih =>
      rw [serve, ih]
      split <;> rfl

theorem settle_of_mem {fd : Int} (modEvents : BitVec 32) (h : fd ∈ s.epoll) :
    ∃ epoll cnt, s.settle fd modEvents = { s with epoll := epoll, evtlist_cnt := cnt } ∧
      ∀ fd' ≠ fd, fd' ∈ s.epoll → fd' ∈ epoll := by
  unfold settle ctlDel ctlMod
  rw [if_pos h, if_pos h]
  split
  · exact ⟨_, _, rfl, fun fd' hne hmem => AList.mem_erase.mpr ⟨hne, hmem⟩⟩
  · exact ⟨_, _, rfl, fun fd' _ hmem => AList.mem_insert _ |>.mpr (.inr hmem)⟩

theorem wakes_notify (h : e.fd = s.notify_socket) (itr : Node Int Nat) : s.wakes e itr = false := by
  simp [wakes, h]

theorem Waiting.filter_entries (h : s.Waiting) (hne : e.fd ≠ s.notify_socket) :
    ((s.entries e.fd).filter fun itr => wants e.events (s.events itr.value)) = s.wakeups e := by
  rw [entries, List.filter_filter, wakeups]
  apply List.filter_congr
  intro itr hitr
  rw [events, (h.asks itr hitr).wants_eq, wakes, bne_iff_ne.mpr hne, Bool.true_and, Bool.and_comm]
  rfl

theorem Passed.of_notify (h : e.fd = s.notify_socket) : Passed s s [e] := by
  have hnone : s.wakeups e = [] := by
    rw [wakeups, List.filter_eq_nil_iff]
    intro itr _
    simp [wakes_notify h]
  refine ⟨?_, ?_, ?_, fun _ _ => rfl, rfl⟩
  · simp [hnone]
  · simp [wakes_notify h]
  · simp [hnone]

theorem Waiting.report (h : s.Waiting) (hlive : s.halted = false) (hregistered : e.fd ∈ s.epoll)
    (hpresent : e.fd = s.notify_socket ∨ s.entries e.fd ≠ []) :
    Passed s (s.report e) [e] ∧ Apart s (s.report e) e.fd := by
  unfold EpollIoWait.report
  rw [hlive, if_neg Bool.false_ne_true]
  by_cases hnotify : e.fd = s.notify_socket
  · rw [if_pos hnotify]
    exact ⟨.of_notify hnotify, rfl, rfl, fun _ _ hfd => hfd⟩
  have hentries : (!(s.entries e.fd).isEmpty) = true := by
    simpa using hpresent.resolve_left hnotify
  rw [if_neg hnotify]
  simp only [hentries, assert, if_true, hlive, Bool.false_eq_true, if_false]
  obtain ⟨hserved, -⟩ := serve_spec e.events (s.entries e.fd) s 0
  obtain ⟨epoll, cnt, hsettle, hepoll⟩ :=
    settle_of_mem ((serve e.events (s.entries e.fd) s 0).2 &&& ~~~e.events)
      (hserved.epoll ▸ hregistered)
  have hmem : ∀ {itr}, itr ∈ s.wakeups e ↔
      itr ∈ s.entries e.fd ∧ wants e.events (s.events itr.value) = true := by
    intro itr
    rw [← h.filter_entries hnotify, List.mem_filter]
  rw [hsettle]
  refine ⟨⟨?_, ?_, ?_, ?_, hserved.failed⟩, hserved.notify, ?_, ?_⟩
  · show (serve e.events (s.entries e.fd) s 0).1.pushed = _
    rw [pushed_serve, h.filter_entries hnotify, List.flatMap_singleton]
  · show (serve e.events (s.entries e.fd) s 0).1.fd_map.nodes = _
    rw [hserved.nodes]
    apply List.filter_congr
    intro itr hitr
    rw [any_entries hitr, List.any_cons, List.any_nil, Bool.or_false, events,
      (h.asks itr hitr).wants_eq, wakes, bne_iff_ne.mpr hnotify, Bool.true_and]
    rfl
  · intro e' he' itr hitr
    rw [List.mem_singleton.mp he'] at hitr ⊢
    have hany : (s.entries e.fd).any (fun itr' => itr'.value = itr.value &&
        wants e.events (s.events itr'.value)) = true := by
      obtain ⟨hentry, hwants⟩ := hmem.mp hitr
      exact List.any_eq_true.mpr ⟨itr, hentry, by simp [hwants]⟩
    show (serve e.events (s.entries e.fd) s 0).1.netFd itr.value = _
    rw [netFd_serve, if_pos hany]
  · intro n hn
    have hany : ¬ (s.entries e.fd).any (fun itr => itr.value = n &&
        wants e.events (s.events itr.value)) = true := by
      intro hany
      obtain ⟨itr, hentry, hitr⟩ := List.any_eq_true.mp hany
      rw [Bool.and_eq_true, decide_eq_true_iff] at hitr
      exact hn e (List.mem_singleton.mpr rfl) itr (hmem.mpr ⟨hentry, hitr.2⟩) hitr.1
    show (serve e.events (s.entries e.fd) s 0).1.netFd n = _
    rw [netFd_serve, if_neg hany]
  · exact serve_ndebug _ _ _ _
  · intro fd' hne hfd'
    apply hepoll fd' hne
    rw [hserved.epoll]
    exact hfd'

/-! ## The pass -/

variable {u : EpollIoWait}

theorem Waiting.eq_of_value (h : s.Waiting) {itr itr' : Node Int Nat}
    (hitr : itr ∈ s.fd_map.nodes) (hitr' : itr' ∈ s.fd_map.nodes)
    (heq : itr.value = itr'.value) : itr = itr' :=
  h.own itr hitr itr' hitr' (by rw [heq])

theorem Passed.mem_nodes {itr : Node Int Nat} (h : Passed s u reports) :
    itr ∈ u.fd_map.nodes ↔ itr ∈ s.fd_map.nodes ∧ ∀ e ∈ reports, s.wakes e itr = false := by
  rw [h.nodes, List.mem_filter, Bool.not_eq_true', List.any_eq_false]
  simp only [Bool.not_eq_true]

theorem Passed.stays (h : Passed s u reports) (hs : s.Waiting) {itr : Node Int Nat}
    (hitr : itr ∈ u.fd_map.nodes) : u.netFd itr.value = s.netFd itr.value := by
  obtain ⟨hmem, hnot⟩ := h.mem_nodes.mp hitr
  apply h.others
  intro e he itr' hitr' heq
  obtain ⟨hmem', hwakes⟩ := mem_wakeups.mp hitr'
  rw [hs.eq_of_value hmem' hmem heq, hnot e he] at hwakes
  cases hwakes

theorem Passed.waiting (h : Passed s u reports) (hs : s.Waiting) : u.Waiting := by
  have hmem : ∀ itr ∈ u.fd_map.nodes, itr ∈ s.fd_map.nodes :=
    fun itr hitr => (h.mem_nodes.mp hitr).1
  constructor
  · intro itr hitr
    rw [h.stays hs hitr]
    exact hs.asks itr (hmem itr hitr)
  · intro itr hitr
    rw [h.stays hs hitr]
    exact hs.suspended itr (hmem itr hitr)
  · intro itr hitr itr' hitr'
    rw [h.stays hs hitr, h.stays hs hitr']
    exact hs.own itr (hmem itr hitr) itr' (hmem itr' hitr')

theorem Passed.wakes_eq (h : Passed s u reports) (hs : s.Waiting)
    (hnotify : u.notify_socket = s.notify_socket) {itr : Node Int Nat}
    (hitr : itr ∈ u.fd_map.nodes) (e : EpollEvent) : u.wakes e itr = s.wakes e itr := by
  rw [wakes, h.stays hs hitr, hnotify, wakes]

/-- An event has nothing to do with the elements of other descriptors. -/
theorem Passed.wakeups_eq {e' : EpollEvent} (h : Passed s u [e]) (hs : s.Waiting)
    (hnotify : u.notify_socket = s.notify_socket) (hne : e'.fd ≠ e.fd) :
    u.wakeups e' = s.wakeups e' := by
  calc u.wakeups e'
      = u.fd_map.nodes.filter (s.wakes e') :=
        List.filter_congr fun itr hitr => h.wakes_eq hs hnotify hitr e'
    _ = s.fd_map.nodes.filter fun itr => s.wakes e' itr && !s.wakes e itr := by
        rw [h.nodes, List.filter_filter]
        simp only [List.any_cons, List.any_nil, Bool.or_false]
    _ = s.wakeups e' := by
        apply List.filter_congr
        intro itr _
        cases hwakes : s.wakes e' itr with
        | false => rfl
        | true =>
            have hother : s.wakes e itr = false := by
              rw [← Bool.not_eq_true]
              exact fun heq => hne ((wakes_key hwakes).symm.trans (wakes_key heq))
            rw [hother]
            rfl

theorem Passed.entries_ne_nil {fd : Int} (h : Passed s u [e]) (hne : fd ≠ e.fd)
    (hentries : s.entries fd ≠ []) : u.entries fd ≠ [] := by
  obtain ⟨itr, hitr⟩ := List.exists_mem_of_ne_nil _ hentries
  obtain ⟨hmem, hkey⟩ := mem_entries.mp hitr
  apply List.ne_nil_of_mem
  rw [mem_entries, h.mem_nodes]
  refine ⟨⟨hmem, fun e' he' => ?_⟩, hkey⟩
  rw [List.mem_singleton.mp he', ← Bool.not_eq_true]
  exact fun hwakes => hne (hkey.symm.trans (wakes_key hwakes))

theorem Reports.tail (hreports : s.Reports (e :: reports)) (h : Passed s u [e])
    (hapart : Apart s u e.fd) : u.Reports reports := by
  obtain ⟨hnew, hdistinct⟩ := List.nodup_cons.mp hreports.distinct
  have hne : ∀ e' ∈ reports, e'.fd ≠ e.fd :=
    fun e' he' heq => hnew (heq ▸ List.mem_map_of_mem he')
  refine ⟨hdistinct, fun e' he' => ?_, fun e' he' => ?_⟩
  · exact hapart.epoll _ (hne e' he') (hreports.registered e' (List.mem_cons_of_mem _ he'))
  · rw [hapart.notify]
    obtain hnotify | hentries := hreports.present e' (List.mem_cons_of_mem _ he')
    · exact .inl hnotify
    · exact .inr (h.entries_ne_nil (hne e' he') hentries)

theorem Passed.nil : Passed s s [] := by
  refine ⟨?_, ?_, nofun, fun _ _ => rfl, rfl⟩
  · simp
  · simp

theorem Passed.cons (hs : s.Waiting) (hpassed : Passed s u [e]) (hrest : Passed u t reports)
    (hnotify : u.notify_socket = s.notify_socket) (hne : ∀ e' ∈ reports, e'.fd ≠ e.fd) :
    Passed s t (e :: reports) := by
  have hwakeups : ∀ e' ∈ reports, u.wakeups e' = s.wakeups e' :=
    fun e' he' => hpassed.wakeups_eq hs hnotify (hne e' he')
  have hstays : ∀ e' ∈ reports, ∀ itr ∈ s.wakeups e', u.netFd itr.value = s.netFd itr.value := by
    intro e' he' itr hitr
    rw [← hwakeups e' he'] at hitr
    exact hpassed.stays hs (mem_wakeups.mp hitr).1
  refine ⟨?_, ?_, ?_, ?_, hrest.failed.trans hpassed.failed⟩
  · have hflat : reports.flatMap u.wakeups = reports.flatMap s.wakeups :=
      List.flatMap_congr hwakeups
    have howners : (reports.flatMap s.wakeups).filterMap
        (fun itr => (u.netFd itr.value).owner_task) =
          (reports.flatMap s.wakeups).filterMap fun itr => (s.netFd itr.value).owner_task := by
      apply List.filterMap_congr
      intro itr hitr
      obtain ⟨e', he', hitr⟩ := List.mem_flatMap.mp hitr
      rw [hstays e' he' itr hitr]
    rw [hrest.pushed, hpassed.pushed, hflat, howners, List.flatMap_singleton, List.append_assoc,
      ← List.filterMap_append, List.flatMap_cons]
  · calc t.fd_map.nodes
        = u.fd_map.nodes.filter fun itr => !reports.any fun e' => s.wakes e' itr := by
          rw [hrest.nodes]
          apply List.filter_congr
          intro itr hitr
          simp only [hpassed.wakes_eq hs hnotify hitr]
      _ = _ := by
          rw [hpassed.nodes, List.filter_filter]
          simp only [List.any_cons, List.any_nil, Bool.or_false, Bool.not_or, Bool.and_comm]
  · intro e' he' itr hitr
    rcases List.mem_cons.mp he' with rfl | he'
    · rw [← hpassed.woken e' List.mem_cons_self itr hitr]
      apply hrest.others
      intro e he itr' hitr' heq
      rw [hwakeups e he] at hitr'
      obtain ⟨hmem, hwakes⟩ := mem_wakeups.mp hitr
      obtain ⟨hmem', hwakes'⟩ := mem_wakeups.mp hitr'
      rw [hs.eq_of_value hmem' hmem heq] at hwakes'
      exact hne e he ((wakes_key hwakes').symm.trans (wakes_key hwakes))
    · rw [← hstays e' he' itr hitr]
      exact hrest.woken e' he' itr (by rwa [hwakeups e' he'])
  · intro n hn
    rw [hrest.others n, hpassed.others n]
    · intro e' he'
      rw [List.mem_singleton.mp he']
      exact hn e List.mem_cons_self
    · intro e' he' itr hitr
      rw [hwakeups e' he'] at hitr
      exact hn e' (List.mem_cons_of_mem _ he') itr hitr

theorem Waiting.waitLoop (hs : s.Waiting) (hlive : s.halted = false)
    (hreports : s.Reports reports) : Passed s (s.waitLoop reports) reports := by
  induction reports generalizing s with
  | nil => exact .nil
  | cons e reports ih =>
      obtain ⟨hpassed, hapart⟩ := hs.report hlive (hreports.registered e List.mem_cons_self)
        (hreports.present e List.mem_cons_self)
      have hlive' : (s.report e).halted = false := by
        rw [halted, hapart.ndebug, hpassed.failed]
        exact hlive
      have hnew := (List.nodup_cons.mp hreports.distinct).1
      have hrest := ih (hpassed.waiting hs) hlive' (hreports.tail hpassed hapart)
      exact .cons hs hpassed hrest hapart.notify
        fun e' he' heq => hnew (heq ▸ List.mem_map_of_mem he')

/-- A pass puts the tasks of the wake set into the run queue, with the events that they have
asked for or an exception, and leaves the other `NetFD`s alone. -/
structure WakesWaiters (s t : EpollIoWait) (reports : List EpollEvent) : Prop where
  order : t.pushed = s.pushed ++
    (reports.flatMap s.wakeups).filterMap fun itr => (s.netFd itr.value).owner_task
  once : ((reports.flatMap s.wakeups).map fun itr => (s.netFd itr.value).owner_task).Nodup
  suspended : ∀ e ∈ reports, ∀ itr ∈ s.wakeups e, (s.netFd itr.value).owner_task.isSome
  removed : t.fd_map.nodes = s.fd_map.nodes.filter fun itr => !reports.any fun e => s.wakes e itr
  revents : ∀ e ∈ reports, ∀ itr ∈ s.wakeups e, (t.netFd itr.value).revents.setWidth 32 =
    ((s.netFd itr.value).interest &&& e.events) ||| (e.events &&& POLL_EXCEPTION)
  stopped : ∀ e ∈ reports, ∀ itr ∈ s.wakeups e, t.netFd itr.value =
    { s.netFd itr.value with revents := (t.netFd itr.value).revents, timer := .none }
  others : ∀ n, (∀ e ∈ reports, ∀ itr ∈ s.wakeups e, itr.value ≠ n) → t.netFd n = s.netFd n
  asserted : t.failed = s.failed

theorem Waiting.nodup_owners (hs : s.Waiting) (hreports : s.Reports reports) :
    ((reports.flatMap s.wakeups).map fun itr => (s.netFd itr.value).owner_task).Nodup := by
  have hmem : ∀ itr ∈ reports.flatMap s.wakeups, itr ∈ s.fd_map.nodes := by
    intro itr hitr
    obtain ⟨e, -, hitr⟩ := List.mem_flatMap.mp hitr
    exact (mem_wakeups.mp hitr).1
  apply List.Nodup.map_on fun itr hitr itr' hitr' => hs.own itr (hmem itr hitr) itr' (hmem itr' hitr')
  refine List.nodup_flatMap.mpr ⟨fun e _ => ?_, ?_⟩
  · exact (s.fd_map.nodup.of_map _).filter _
  · -- no element has the keys of two events
    have hdistinct := List.pairwise_map.mp hreports.distinct
    refine hdistinct.imp fun hne itr hitr hitr' => hne ?_
    exact (wakes_key (mem_wakeups.mp hitr).2).symm.trans (wakes_key (mem_wakeups.mp hitr').2)

/-- `WaitLoop` wakes the waiters of the reported events, each once, and nobody else. -/
theorem waitLoop_wakes (hs : s.Waiting) (hreports : s.Reports reports)
    (hlive : s.halted = false) :
    ∃ t, s.waitLoopFrom reports = some t ∧ s.WakesWaiters t reports := by
  have hpassed := hs.waitLoop hlive hreports
  refine ⟨s.waitLoop reports, waitLoopFrom_eq s reports, ?_⟩
  have hasks : ∀ e ∈ reports, ∀ itr ∈ s.wakeups e, (s.netFd itr.value).Asks :=
    fun e _ itr hitr => hs.asks itr (mem_wakeups.mp hitr).1
  exact
    { order := hpassed.pushed
      once := hs.nodup_owners hreports
      suspended := fun e _ itr hitr => hs.suspended itr (mem_wakeups.mp hitr).1
      removed := hpassed.nodes
      revents := fun e he itr hitr => by
        rw [hpassed.woken e he itr hitr]
        exact (hasks e he itr hitr).revents_woken e.events
      stopped := fun e he itr hitr => by
        rw [hpassed.woken e he itr hitr]
        rfl
      others := hpassed.others
      asserted := hpassed.failed }

/-- Tasks 1 and 2 wait on the descriptor 5, for different events. -/
def bothWaiting : EpollIoWait :=
  ((make twoShared 8 64 true).poll 0 1 POLLIN 0).poll 1 2 POLLOUT 10

/-- The interrupter and the descriptor are reported, and the second task waits on. -/
theorem waitLoop_wakes_first :
    ∃ t, bothWaiting.waitLoopFrom [⟨3, POLLIN⟩, ⟨5, POLLIN⟩] = some t ∧
      bothWaiting.WakesWaiters t [⟨3, POLLIN⟩, ⟨5, POLLIN⟩] := by
  have hnodes : bothWaiting.fd_map.nodes = [⟨0, 5, 0⟩, ⟨1, 5, 1⟩] := rfl
  apply waitLoop_wakes
  · constructor
    · rw [hnodes]
      refine List.forall_mem_cons.mpr ⟨⟨by decide, by decide⟩, ?_⟩
      exact List.forall_mem_cons.mpr ⟨⟨by decide, by decide⟩, nofun⟩
    · rw [hnodes]
      exact List.forall_mem_cons.mpr ⟨rfl, List.forall_mem_cons.mpr ⟨rfl, nofun⟩⟩
    · rw [hnodes]
      intro itr hitr itr' hitr' heq
      simp only [List.mem_cons, List.not_mem_nil, or_false] at hitr hitr'
      rcases hitr with rfl | rfl <;> rcases hitr' with rfl | rfl
      · rfl
      · exact absurd heq (by decide)
      · exact absurd heq (by decide)
      · rfl
  · refine ⟨by decide, ?_, ?_⟩
    · exact List.forall_mem_cons.mpr ⟨by decide, List.forall_mem_cons.mpr ⟨by decide, nofun⟩⟩
    · refine List.forall_mem_cons.mpr ⟨.inl rfl, List.forall_mem_cons.mpr ⟨.inr ?_, nofun⟩⟩
      exact List.cons_ne_nil _ _
  · rfl

end EpollIoWait

end CppGo.Netio
