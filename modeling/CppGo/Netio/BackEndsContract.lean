import CppGo.Netio.BackEnds

/-!
# The back ends are interchangeable

Both keep the same `NetFD`s in `fd_map` and the same timers, wake the same tasks and let `Poll`
return the same.
-/

namespace CppGo.Netio

open CppGo.Lib CppGo.Lib.Machine
open EpollIoWait (Waits)

namespace BackEnds

structure Agree (s : SelectIoWait) (t : EpollIoWait) : Prop where
  selected : s.Mirrored
  mirrored : t.Mirrored
  live : s.ended = none
  alive : t.halted = false
  nodes : t.fd_map.nodes = s.fd_map.nodes
  nextId : t.fd_map.nextId = s.fd_map.nextId
  notify : t.notify_socket = s.notify_socket
  interrupter : t.epoll.lookup t.notify_socket = some (POLLIN ||| EPOLLET)
  fd : ∀ n, (t.netFd n).fd = (s.netFd n).fd
  shared : ∀ n, (t.netFd n).shared = (s.netFd n).shared
  events : ∀ n ∈ s.fd_map.values, (t.netFd n).events = (s.netFd n).events
  owner : ∀ n u, (t.netFd n).owner_task = some u ↔ ∃ c, s.calls u = some c ∧ c.netFd = n
  timer : ∀ n, (t.netFd n).timer = (s.netFd n).timer
  idle : ∀ n, ¬ s.inPoll n → (s.netFd n).timer = .none
  untimed : ∀ u c, s.calls u = some c → c.timeout ≤ 0 → (s.netFd c.netFd).timer = .none
  runnable : ∀ u c, s.calls u = some c → c.netFd ∉ s.fd_map.values → u ∈ s.runnableQueue_
  revents : ∀ n, s.inPoll n → n ∉ s.fd_map.values → (s.netFd n).timer = .none →
    Waits (ofShort (t.netFd n).revents)

variable {s s' : SelectIoWait} {t t' : EpollIoWait} {n : Nat}

theorem agree_make (k : Sockets) (epoll_event_size rlim_max : Nat) (ndebug : Bool) :
    Agree (.make k ndebug) (.make k epoll_event_size rlim_max ndebug) := by
  constructor
  case selected => exact SelectIoWait.mirrored_make k ndebug
  case mirrored => exact EpollIoWait.mirrored_make k epoll_event_size rlim_max ndebug
  case live => rfl
  case alive => simp [EpollIoWait.halted, EpollIoWait.make]
  case nodes => rfl
  case nextId => rfl
  case notify => rfl
  case interrupter => exact List.dlookup_cons_eq _ _ _
  case fd => exact fun n => rfl
  case shared => exact fun n => rfl
  case events => exact fun n hn => absurd hn List.not_mem_nil
  case owner =>
    intro n u
    constructor
    · intro howner
      cases howner
    · rintro ⟨c, hc, -⟩
      cases hc
  case timer => exact fun n => rfl
  case idle => exact fun n _ => rfl
  case untimed => exact fun u c hc => by cases hc
  case runnable => exact fun u c hc => by cases hc
  case revents =>
    rintro n ⟨u, c, hc, -⟩
    cases hc

theorem Agree.entries (h : Agree s t) (fd : Int) : t.entries fd = s.entries fd := by
  unfold EpollIoWait.entries SelectIoWait.entries
  rw [h.nodes]

theorem Agree.owner_none (h : Agree s t) (howner : (s.netFd n).owner_task = none) :
    (t.netFd n).owner_task = none := by
  cases hu : (t.netFd n).owner_task with
  | none => rfl
  | some u =>
      obtain ⟨c, hc, hnet⟩ := (h.owner n u).mp hu
      exact absurd hnet (h.selected.not_called howner hc)

theorem Agree.owner_eq (h : Agree s t) (hn : n ∈ s.fd_map.values) :
    (t.netFd n).owner_task = (s.netFd n).owner_task := by
  obtain ⟨u, c, hc, hnet⟩ := h.selected.mapped n hn
  rw [(h.owner n u).mpr ⟨c, hc, hnet⟩, ← hnet, h.selected.called u c hc]

/-! ## `WaitLoop` -/

section WaitLoop

variable {reports : List EpollEvent}

theorem Agree.waits (h : Agree s t) {itr : Node Int Nat} (hitr : itr ∈ t.fd_map.nodes) :
    Waits (ofShort (t.netFd itr.value).events) ∧
      (t.netFd itr.value).events = (s.netFd itr.value).events := by
  have hn : itr.value ∈ s.fd_map.values := by
    rw [Multimap.values, ← h.nodes]
    exact List.mem_map_of_mem hitr
  exact ⟨h.mirrored.waits itr hitr, h.events _ hn⟩

theorem asks_of_waits {f : NetFD} (h : Waits (ofShort f.events)) : f.Asks := by
  have hback : f.events = toShort (ofShort f.events) := by
    have hround : ∀ x : BitVec 16, toShort (ofShort x) = x := by
      intro x
      ext i hi
      have hi' : i < 32 := by omega
      rw [toShort, BitVec.getElem_setWidth, ofShort, BitVec.getLsbD_signExtend]
      simp [hi, hi']
    exact (hround _).symm
  rcases h with he | he <;> rw [he] at hback
  · constructor <;> rw [NetFD.interest, hback] <;> decide
  · constructor <;> rw [NetFD.interest, hback] <;> decide

theorem Agree.waiting (h : Agree s t) : t.Waiting := by
  have hvalue : ∀ itr ∈ t.fd_map.nodes, itr.value ∈ s.fd_map.values := by
    intro itr hitr
    rw [Multimap.values, ← h.nodes]
    exact List.mem_map_of_mem hitr
  constructor
  case asks => exact fun itr hitr => asks_of_waits (h.mirrored.waits itr hitr)
  case suspended =>
    intro itr hitr
    exact Option.ne_none_iff_isSome.mp (h.mirrored.owner itr hitr)
  case own =>
    intro itr hitr itr' hitr' heq
    obtain ⟨u, hu⟩ := Option.ne_none_iff_exists'.mp (h.mirrored.owner itr hitr)
    obtain ⟨c, hc, hnet⟩ := (h.owner _ u).mp hu
    obtain ⟨d, hd, hnet'⟩ := (h.owner _ u).mp (heq ▸ hu)
    rw [hc] at hd
    cases hd
    rw [h.nodes] at hitr hitr'
    exact List.inj_on_of_nodup_map h.selected.once hitr hitr' (hnet.symm.trans hnet')

theorem Agree.reports_of (h : Agree s t) (hdistinct : (reports.map EpollEvent.fd).Nodup)
    (hmay : ∀ e ∈ reports, t.mayReport e = true) : t.Reports reports := by
  have hregistered : ∀ e ∈ reports, e.fd ∈ t.epoll := by
    intro e he
    have hmay := hmay e he
    unfold EpollIoWait.mayReport at hmay
    rw [← AList.lookup_isSome]
    cases hlookup : t.epoll.lookup e.fd with
    | none =>
        rw [hlookup] at hmay
        cases hmay
    | some mask => rfl
  refine ⟨hdistinct, hregistered, fun e he => ?_⟩
  by_cases hfd : e.fd = t.notify_socket
  · exact .inl hfd
  · exact .inr ((h.mirrored.mirror e.fd hfd).registered.mp (hregistered e he))

theorem occurred_pollin {ready : Ready} {f : NetFD} (he : ofShort f.events = POLLIN) :
    ready.occurred f = if f.fd ∈ ready.read then POLLIN else 0 := by
  rw [Ready.occurred_eq, he]
  by_cases hread : f.fd ∈ ready.read
  · rw [if_pos ⟨by decide, hread⟩, if_neg fun h => h.1 (by decide), if_neg fun h => h.1 (by decide),
      if_pos hread]
    decide
  · rw [if_neg fun h => hread h.2, if_neg fun h => h.1 (by decide),
      if_neg fun h => h.1 (by decide), if_neg hread]
    decide

theorem occurred_pollout {ready : Ready} {f : NetFD} (he : ofShort f.events = POLLOUT) :
    ready.occurred f = if f.fd ∈ ready.write then POLLOUT else 0 := by
  rw [Ready.occurred_eq, he]
  by_cases hwrite : f.fd ∈ ready.write
  · rw [if_neg fun h => h.1 (by decide), if_pos ⟨by decide, hwrite⟩,
      if_neg fun h => h.1 (by decide), if_pos hwrite]
    decide
  · rw [if_neg fun h => h.1 (by decide), if_neg fun h => hwrite h.2,
      if_neg fun h => h.1 (by decide), if_neg hwrite]
    decide

theorem mem_reported {m : BitVec 32} {fd : Int} :
    fd ∈ (reports.filter fun e => e.events &&& m != 0).map EpollEvent.fd ↔
      ∃ e ∈ reports, e.fd = fd ∧ m &&& e.events ≠ 0 := by
  simp only [List.mem_map, List.mem_filter, bne_iff_ne, BitVec.and_comm m]
  exact exists_congr fun e => by tauto

/-- A `NetFD` that waits for one event has it if a report says so. -/
theorem serves_ofReports_iff {f : NetFD} (h : Waits (ofShort f.events)) :
    (Ready.ofReports reports).serves f = true ↔
      ∃ e ∈ reports, e.fd = f.fd ∧ ofShort f.events &&& e.events ≠ 0 := by
  rw [Ready.serves_iff]
  rcases h with he | he
  · rw [occurred_pollin he, he, ← mem_reported]
    exact ite_ne_right_iff.trans (and_iff_left (by decide))
  · rw [occurred_pollout he, he, ← mem_reported]
    exact ite_ne_right_iff.trans (and_iff_left (by decide))

theorem occurred_of_serves {ready : Ready} {f : NetFD} (h : Waits (ofShort f.events))
    (hserves : ready.serves f = true) : ready.occurred f = ofShort f.events := by
  rw [Ready.serves_iff] at hserves
  rcases h with he | he
  · rw [occurred_pollin he] at hserves ⊢
    rw [if_pos (ite_ne_right_iff.mp hserves).1, he]
  · rw [occurred_pollout he] at hserves ⊢
    rw [if_pos (ite_ne_right_iff.mp hserves).1, he]

/-- Without errors, a report wakes a `NetFD` of its descriptor for the event it waits for. -/
theorem wakes_iff {e : EpollEvent} {itr : Node Int Nat} (hnone : e.events &&& POLL_EXCEPTION = 0)
    (hnotify : itr.key ≠ t.notify_socket) (hwaits : Waits (ofShort (t.netFd itr.value).events)) :
    t.wakes e itr = true ↔
      e.fd = itr.key ∧ ofShort (t.netFd itr.value).events &&& e.events ≠ 0 := by
  have hconcerns := (asks_of_waits hwaits).wants_eq (e := e)
  have hexc : (e.events &&& POLL_EXCEPTION != 0) = false := by simpa using hnone
  rw [EpollIoWait.wakes, ← hconcerns, EpollIoWait.wants, hexc, Bool.or_false, Bool.and_eq_true,
    Bool.and_eq_true, bne_iff_ne, bne_iff_ne, beq_iff_eq, BitVec.and_comm e.events]
  constructor
  · exact fun h => ⟨h.1.2.symm, h.2⟩
  · exact fun h => ⟨⟨h.1 ▸ hnotify, h.1.symm⟩, h.2⟩

theorem Agree.serves_iff (h : Agree s t) (hnone : ∀ e ∈ reports, e.events &&& POLL_EXCEPTION = 0)
    {itr : Node Int Nat} (hitr : itr ∈ t.fd_map.nodes) :
    (Ready.ofReports reports).serves (s.netFd itr.value) = true ↔
      ∃ e ∈ reports, t.wakes e itr = true := by
  obtain ⟨hwaits, hevents⟩ := h.waits hitr
  have hkey : itr.key = (s.netFd itr.value).fd := by rw [← h.fd, h.mirrored.key itr hitr]
  have hnotify : itr.key ≠ t.notify_socket := by
    rw [← h.mirrored.key itr hitr]
    exact h.mirrored.foreign _
  rw [hevents] at hwaits
  rw [serves_ofReports_iff hwaits]
  apply exists_congr
  intro e
  apply and_congr_right
  intro he
  rw [wakes_iff (hnone e he) hnotify (hevents ▸ hwaits), hkey, hevents]

theorem Waits.and_eq {e m : BitVec 32} (h : Waits e) (hand : e &&& m ≠ 0) : e &&& m = e := by
  obtain ⟨k, -, rfl⟩ := h.isFlag
  rw [BitVec.twoPow_and] at hand ⊢
  cases hk : m.getLsbD k with
  | false => simp [hk] at hand
  | true => simp

/-- What `epoll_wait` may report to one and `select` to the other. -/
structure Reported (t : EpollIoWait) (reports : List EpollEvent) : Prop where
  distinct : (reports.map EpollEvent.fd).Nodup
  may : ∀ e ∈ reports, t.mayReport e = true
  clean : ∀ e ∈ reports, e.events &&& POLL_EXCEPTION = 0

/-- A pass wakes a `NetFD` with both or with none of them. -/
theorem Agree.passed (h : Agree s t) (hreported : Reported t reports) (n : Nat) :
    ((s.waitLoop (.ofReports reports)).netFd n = s.netFd n ∧
      (t.waitLoop reports).netFd n = t.netFd n ∧
      (n ∈ s.fd_map.values → n ∈ (s.waitLoop (.ofReports reports)).fd_map.values)) ∨
    (n ∈ s.fd_map.values ∧ n ∉ (s.waitLoop (.ofReports reports)).fd_map.values ∧
      (s.waitLoop (.ofReports reports)).netFd n =
        (s.netFd n).served (ofShort (s.netFd n).events) ∧
      ∃ e ∈ reports, (t.waitLoop reports).netFd n = (t.netFd n).woken e.events ∧
        ofShort (s.netFd n).events &&& e.events ≠ 0) := by
  have hselect := h.selected.wakesReady (fun n hn => h.selected.quiet n (.inl hn))
    (.ofReports reports)
  have hepoll := h.waiting.waitLoop h.alive (h.reports_of hreported.distinct hreported.may)
  by_cases hwoken : ∃ itr ∈ s.fd_map.nodes, itr.value = n ∧
      (Ready.ofReports reports).serves (s.netFd n) = true
  · right
    obtain ⟨itr, hitr, rfl, hserves⟩ := hwoken
    have hitr' : itr ∈ t.fd_map.nodes := h.nodes ▸ hitr
    obtain ⟨hwaits, hevents⟩ := h.waits hitr'
    obtain ⟨e, he, hwakes⟩ := (h.serves_iff hreported.clean hitr').mp hserves
    have hnotify : itr.key ≠ t.notify_socket := by
      rw [← h.mirrored.key itr hitr']
      exact h.mirrored.foreign _
    have hand := ((wakes_iff (hreported.clean e he) hnotify hwaits).mp hwakes).2
    refine ⟨List.mem_map_of_mem hitr, fun hn => ?_, ?_, e, he, ?_, hevents ▸ hand⟩
    · exact Ready.serves_iff.mp hserves (hselect.mem_values hn).2
    · rw [hselect.woken itr (SelectIoWait.mem_wakeups.mpr ⟨hitr, hserves⟩),
        occurred_of_serves (hevents ▸ hwaits) hserves]
    · exact hepoll.woken e he itr (EpollIoWait.mem_wakeups.mpr ⟨hitr', hwakes⟩)
  · left
    refine ⟨hselect.others n fun itr hitr heq => ?_, hepoll.others n fun e he itr hitr heq => ?_,
      fun hn => ?_⟩
    · obtain ⟨hmem, hserves⟩ := SelectIoWait.mem_wakeups.mp hitr
      exact hwoken ⟨itr, hmem, heq, heq ▸ hserves⟩
    · obtain ⟨hmem, hwakes⟩ := EpollIoWait.mem_wakeups.mp hitr
      refine hwoken ⟨itr, h.nodes ▸ hmem, heq, heq ▸ ?_⟩
      exact (h.serves_iff hreported.clean hmem).mpr ⟨e, he, hwakes⟩
    · obtain ⟨itr, hitr, rfl⟩ := List.mem_map.mp hn
      apply List.mem_map_of_mem
      rw [hselect.removed, List.mem_filter]
      refine ⟨hitr, ?_⟩
      rw [Bool.not_eq_true', ← Bool.not_eq_true]
      exact fun hserves => hwoken ⟨itr, hitr, rfl, hserves⟩

theorem Agree.waitLoop (h : Agree s t) (hreported : Reported t reports) :
    Agree (s.waitLoop (.ofReports reports)) (t.waitLoop reports) := by
  have hselect := h.selected.wakesReady (fun n hn => h.selected.quiet n (.inl hn))
    (.ofReports reports)
  have hepoll := h.waiting.waitLoop h.alive (h.reports_of hreported.distinct hreported.may)
  obtain ⟨hid, hnotify⟩ := s.waitLoop_frame (.ofReports reports)
  obtain ⟨hid', hndebug', hnotify', hlookup'⟩ := EpollIoWait.waitLoop_frame reports t
  have hsub : ∀ {n}, n ∈ (s.waitLoop (.ofReports reports)).fd_map.values → n ∈ s.fd_map.values :=
    fun hn => (hselect.mem_values hn).1
  have hin : ∀ {n}, (s.waitLoop (.ofReports reports)).inPoll n ↔ s.inPoll n := by
    intro n
    rw [SelectIoWait.inPoll, hselect.calls, SelectIoWait.inPoll]
  constructor
  case selected => exact h.selected.waitLoop _
  case mirrored =>
    apply h.mirrored.waitLoop hreported.distinct hreported.may
    intro e he
    rw [EpollIoWait.complete, hreported.clean e he]
    rfl
  case live => rw [hselect.ended, h.live]
  case alive =>
    rw [EpollIoWait.halted, hndebug', hepoll.failed]
    exact h.alive
  case nodes =>
    rw [hepoll.nodes, hselect.removed, ← h.nodes]
    apply List.filter_congr
    intro itr hitr
    rw [Bool.eq_iff_iff, Bool.not_eq_true', Bool.not_eq_true', ← Bool.not_eq_true,
      ← Bool.not_eq_true, List.any_eq_true, not_iff_not]
    exact (h.serves_iff hreported.clean hitr).symm
  case nextId => rw [hid', hid, h.nextId]
  case notify => rw [hnotify', hnotify, h.notify]
  case interrupter => rw [hnotify', hlookup', h.interrupter]
  case fd =>
    intro n
    obtain ⟨hs, ht, -⟩ | ⟨-, -, hs, e, -, ht, -⟩ := h.passed hreported n
    · rw [hs, ht, h.fd]
    · rw [hs, ht]
      exact h.fd n
  case shared =>
    intro n
    obtain ⟨hs, ht, -⟩ | ⟨-, -, hs, e, -, ht, -⟩ := h.passed hreported n
    · rw [hs, ht, h.shared]
    · rw [hs, ht]
      exact h.shared n
  case events =>
    intro n hn
    obtain ⟨hs, ht, -⟩ | ⟨-, hout, -⟩ := h.passed hreported n
    · rw [hs, ht]
      exact h.events n (hsub hn)
    · exact absurd hn hout
  case owner =>
    intro n u
    rw [hselect.calls, ← h.owner]
    obtain ⟨-, ht, -⟩ | ⟨-, -, -, e, -, ht, -⟩ := h.passed hreported n
    · rw [ht]
    · rw [ht]
      rfl
  case timer =>
    intro n
    obtain ⟨hs, ht, -⟩ | ⟨-, -, hs, e, -, ht, -⟩ := h.passed hreported n
    · rw [hs, ht, h.timer]
    · rw [hs, ht]
      rfl
  case idle =>
    intro n hout
    obtain ⟨hs, -⟩ | ⟨hn, -⟩ := h.passed hreported n
    · rw [hs]
      exact h.idle n fun h => hout (hin.mpr h)
    · exact absurd (hin.mpr (h.selected.mapped n hn)) hout
  case untimed =>
    intro u c hc hle
    rw [hselect.calls] at hc
    obtain ⟨hs, -⟩ | ⟨-, -, hs, -⟩ := h.passed hreported c.netFd
    · rw [hs]
      exact h.untimed u c hc hle
    · rw [hs]
      rfl
  case runnable =>
    intro u c hc hout
    rw [hselect.calls] at hc
    rw [hselect.queue, List.mem_append]
    by_cases hn : c.netFd ∈ s.fd_map.values
    · right
      obtain ⟨itr, hitr, hvalue⟩ := List.mem_map.mp hn
      rw [List.mem_filterMap]
      refine ⟨itr, SelectIoWait.mem_wakeups.mpr ⟨hitr, ?_⟩, ?_⟩
      · by_contra hserves
        apply hout
        rw [← hvalue]
        apply List.mem_map_of_mem
        rw [hselect.removed, List.mem_filter]
        exact ⟨hitr, by simpa using hserves⟩
      · rw [hvalue, h.selected.called u c hc]
    · exact .inl (h.runnable u c hc hn)
  case revents =>
    intro n hcall hout htimer
    obtain ⟨hs, ht, hstays⟩ | ⟨hn, -, -, e, he, ht, hand⟩ := h.passed hreported n
    · rw [ht]
      rw [hs] at htimer
      exact h.revents n (hin.mp hcall) (fun hn => hout (hstays hn)) htimer
    · obtain ⟨itr, hitr, rfl⟩ := List.mem_map.mp hn
      obtain ⟨hwaits, hevents⟩ := h.waits (h.nodes ▸ hitr)
      rw [← hevents] at hand
      rw [ht, NetFD.woken, hreported.clean e he, Waits.and_eq hwaits hand]
      rcases hwaits with he | he <;> rw [he]
      · exact .inl (show ofShort (toShort (POLLIN ||| 0)) = POLLIN by decide)
      · exact .inr (show ofShort (toShort (POLLOUT ||| 0)) = POLLOUT by decide)

/-- A pass puts the same tasks into a run queue, in another order. -/
theorem Agree.waitLoop_perm (h : Agree s t) (hreported : Reported t reports) :
    ∃ l l', (s.waitLoop (.ofReports reports)).runnableQueue_ = s.runnableQueue_ ++ l ∧
      (t.waitLoop reports).pushed = t.pushed ++ l' ∧ l.Perm l' := by
  have hselect := h.selected.wakesReady (fun n hn => h.selected.quiet n (.inl hn))
    (.ofReports reports)
  have hreports := h.reports_of hreported.distinct hreported.may
  have hepoll := h.waiting.waitLoop h.alive hreports
  refine ⟨_, _, hselect.queue, hepoll.pushed, ?_⟩
  have howners : ∀ itr ∈ s.wakeups (.ofReports reports),
      (s.netFd itr.value).owner_task = (t.netFd itr.value).owner_task := by
    intro itr hitr
    exact (h.owner_eq (List.mem_map_of_mem (SelectIoWait.mem_wakeups.mp hitr).1)).symm
  rw [List.filterMap_congr howners]
  apply List.Perm.filterMap
  rw [List.perm_ext_iff_of_nodup]
  · intro itr
    rw [SelectIoWait.mem_wakeups, List.mem_flatMap, ← h.nodes]
    constructor
    · rintro ⟨hitr, hserves⟩
      obtain ⟨e, he, hwakes⟩ := (h.serves_iff hreported.clean hitr).mp hserves
      exact ⟨e, he, EpollIoWait.mem_wakeups.mpr ⟨hitr, hwakes⟩⟩
    · rintro ⟨e, he, hitr⟩
      obtain ⟨hmem, hwakes⟩ := EpollIoWait.mem_wakeups.mp hitr
      exact ⟨hmem, (h.serves_iff hreported.clean hmem).mpr ⟨e, he, hwakes⟩⟩
  · exact (s.fd_map.nodup.of_map _).filter _
  · exact (h.waiting.nodup_owners hreports).of_map _

end WaitLoop

/-! ## `Poll` -/

section Poll

variable {task : Nat} {events : BitVec 32} {timeout : Int}

/-- `PollsetAdd` registers the events, with either of `epoll_ctl`'s operations. -/
theorem Agree.registered (h : Agree s t) (hwaits : Waits events)
    (howner : (s.netFd n).owner_task = none) (hfd : 0 ≤ (s.netFd n).fd)
    (hshare : s.entries (s.netFd n).fd = [] ∨ (s.netFd n).shared = true ∧ t.ndebug = true) :
    (t.pollsetAdd n events).2 = true ∧
      EpollIoWait.Registered t n events (t.pollsetAdd n events).1 := by
  rw [← h.fd] at hfd
  have hvalid : ¬ ((t.netFd n).fd < 0 ∨ events = 0 ∨
      events &&& ~~~(POLLIN ||| POLLOUT ||| POLLPRI) ≠ 0) := by
    rintro (hneg | hzero)
    · omega
    · rcases hwaits with rfl | rfl <;> revert hzero <;> decide
  by_cases hentries : t.entries (t.netFd n).fd = []
  · have hadd : t.pollsetAdd n events = t.pollsetAddHelp n (events ||| EPOLLET) := by
      unfold EpollIoWait.pollsetAdd
      dsimp only
      rw [if_neg hvalid, if_pos (.inr hentries)]
    rw [hadd]
    exact h.mirrored.pollsetAddHelp h.alive hwaits hentries
  · rw [← h.entries, ← h.fd, ← h.shared] at hshare
    obtain ⟨hshared, hndebug⟩ := hshare.resolve_left hentries
    have htrue : (t.pollsetAdd n events).2 = true := by
      unfold EpollIoWait.pollsetAdd
      dsimp only
      rw [if_neg hvalid, if_neg (by simp [hshared, hentries])]
      split <;> rfl
    refine ⟨htrue, ?_⟩
    obtain hinvalid | ⟨-, ⟨hhalted, -⟩ | hreg⟩ :=
      h.mirrored.pollsetAdd h.alive (h.owner_none howner) hwaits (.inl hshared)
    · rw [hinvalid] at htrue
      cases htrue
    · -- the assertion of `PollsetModify` is compiled out
      rw [EpollIoWait.halted, (EpollIoWait.pollsetAdd_frame events).1, hndebug] at hhalted
      cases hhalted
    · exact hreg

/-- `Poll` returns at once with both, with the same `errno`, or with neither. -/
theorem Agree.refuses (h : Agree s t) (hwaits : Waits events)
    (howner : (s.netFd n).owner_task = none) (hsize : (s.netFd n).fd < FD_SETSIZE)
    (hshare : s.entries (s.netFd n).fd = [] ∨ (s.netFd n).shared = true ∧ t.ndebug = true) :
    t.refuses n events = s.refuses n events := by
  have hvalid : events ≠ 0 ∧ events &&& ~~~(POLLIN ||| POLLOUT ||| POLLPRI) = 0 := by
    rcases hwaits with rfl | rfl <;> decide
  have hsmall : ¬ FD_SETSIZE ≤ (s.netFd n).fd := not_le.mpr hsize
  have hinvalid : s.invalid n events = decide ((s.netFd n).fd < 0) := by
    unfold SelectIoWait.invalid
    dsimp only
    rw [beq_eq_false_iff_ne.mpr hvalid.1, bne_eq_false_iff_eq.mpr hvalid.2,
      decide_eq_false hsmall, Bool.or_false, Bool.or_false, Bool.or_false]
  unfold EpollIoWait.refuses SelectIoWait.refuses
  rw [hinvalid, h.fd]
  by_cases hfd : (s.netFd n).fd < 0
  · rw [if_pos (.inl hfd), if_pos (decide_eq_true hfd)]
  · obtain ⟨htrue, -⟩ := h.registered hwaits howner (not_lt.mp hfd) hshare
    have hvalid : ¬ ((s.netFd n).fd < 0 ∨ events = 0 ∨
        events &&& ~~~(POLLIN ||| POLLOUT ||| POLLPRI) ≠ 0) := by
      rintro (hneg | hzero | hmask)
      · exact hfd hneg
      · exact hvalid.1 hzero
      · exact hmask hvalid.2
    rw [if_neg hvalid, if_pos htrue, if_neg (by simp [hfd])]

theorem Agree.poll_epoll (h : Agree s t) (hwaits : Waits events)
    (howner : (s.netFd n).owner_task = none) (hfd : 0 ≤ (s.netFd n).fd)
    (hshare : s.entries (s.netFd n).fd = [] ∨ (s.netFd n).shared = true ∧ t.ndebug = true) :
    (t.poll n task events timeout).fd_map = t.fd_map.insert (t.netFd n).fd n ∧
      (t.poll n task events timeout).netFd = Function.update t.netFd n
        { t.netFd n with
          events := toShort (events ||| EPOLLET)
          owner_task := some task
          timer := if timeout > 0 then .armed else (t.netFd n).timer } ∧
      (t.poll n task events timeout).halted = false ∧
      (t.poll n task events timeout).notify_socket = t.notify_socket ∧
      (t.poll n task events timeout).epoll.lookup t.notify_socket =
        t.epoll.lookup t.notify_socket ∧
      (t.poll n task events timeout).pushed = t.pushed := by
  obtain ⟨htrue, hreg⟩ := h.registered hwaits howner hfd hshare
  have hpoll : t.poll n task events timeout =
      { (t.pollsetAdd n events).1 with
        fd_map := (t.pollsetAdd n events).1.fd_map.insert
          ((t.pollsetAdd n events).1.netFd n).fd n }.setNetFd n
        { (t.pollsetAdd n events).1.netFd n with
          owner_task := some task
          timer := if timeout > 0 then .armed else ((t.pollsetAdd n events).1.netFd n).timer } := by
    unfold EpollIoWait.poll
    dsimp only
    rw [if_neg (by simp [htrue, hreg.live])]
  have hn : (t.pollsetAdd n events).1.netFd n =
      { t.netFd n with events := toShort (events ||| EPOLLET) } := by
    rw [hreg.netFd]
    exact Function.update_self _ _ _
  rw [hpoll]
  refine ⟨?_, ?_, hreg.live, hreg.notify, hreg.others _ (h.mirrored.foreign n).symm,
    (EpollIoWait.pollsetAdd_frame events).2⟩
  · show (t.pollsetAdd n events).1.fd_map.insert _ n = _
    rw [hreg.fd_map, hn]
  · show Function.update (t.pollsetAdd n events).1.netFd n _ = _
    rw [hn, hreg.netFd]
    exact Function.update_idem _ _ _

theorem Agree.poll_invalid (h : Agree s t) (howner : (s.netFd n).owner_task = none)
    (hfd : (s.netFd n).fd < 0) :
    s.poll n task events timeout = s ∧ t.poll n task events timeout = t := by
  constructor
  · unfold SelectIoWait.poll
    rw [if_neg (not_not_intro howner), if_pos (by simp [SelectIoWait.invalid, hfd])]
  · have hadd : t.pollsetAdd n events = (t, false) := by
      unfold EpollIoWait.pollsetAdd
      dsimp only
      rw [if_pos (.inl (by rw [h.fd]; exact hfd))]
    unfold EpollIoWait.poll
    rw [hadd]
    exact if_pos (.inl rfl)

theorem Agree.poll (h : Agree s t) (hwaits : Waits events) (hcall : s.calls task = none)
    (howner : (s.netFd n).owner_task = none) (hsize : (s.netFd n).fd < FD_SETSIZE)
    (halone : ∀ m ∈ s.fd_map.values, (s.netFd m).fd = (s.netFd n).fd → s.events m ≠ events)
    (hshare : s.entries (s.netFd n).fd = [] ∨ (s.netFd n).shared = true ∧ t.ndebug = true) :
    Agree (s.poll n task events timeout) (t.poll n task events timeout) := by
  by_cases hneg : (s.netFd n).fd < 0
  · obtain ⟨hs, ht⟩ := @Agree.poll_invalid s t n task events timeout h howner hneg
    rw [hs, ht]
    exact h
  have hfd : 0 ≤ (s.netFd n).fd := by omega
  obtain ⟨hmap, hnet, halive, hnotify, hlookup, -⟩ :=
    @Agree.poll_epoll s t n task events timeout h hwaits howner hfd hshare
  have hselected : (s.poll n task events timeout).Mirrored :=
    h.selected.poll hcall hwaits timeout fun m hm _ => halone m hm
  have hmirrored : (t.poll n task events timeout).Mirrored := by
    apply h.mirrored.poll h.alive (h.owner_none howner) hwaits
    rw [h.shared, h.fd, h.entries]
    rcases hshare with hentries | ⟨hshared, -⟩
    · exact .inr hentries
    · exact .inl hshared
  have hregister : s.poll n task events timeout = s.register n task events timeout := by
    have hvalid : s.invalid n events = false := by
      unfold SelectIoWait.invalid
      rcases hwaits with rfl | rfl <;> simp [hneg, hsize] <;> decide
    show (if (s.netFd n).owner_task ≠ none then _ else _) = _
    rw [if_neg (not_not_intro howner), hvalid]
    rfl
  rw [hregister] at hselected ⊢
  have hout : ¬ s.inPoll n := by
    rintro ⟨u, c, hc, hnet⟩
    exact h.selected.not_called howner hc hnet
  have hn : n ∉ s.fd_map.values := fun hn => hout (h.selected.mapped n hn)
  have hvalues : ∀ m ∈ (s.register n task events timeout).fd_map.values, m ≠ n →
      m ∈ s.fd_map.values :=
    fun m hm hmn => (SelectIoWait.mem_values_register.mp hm).resolve_left hmn
  have hnet_of_ne : ∀ m ≠ n, (t.poll n task events timeout).netFd m = t.netFd m := by
    intro m hm
    rw [hnet]
    exact Function.update_of_ne hm _ _
  have hnet_self : (t.poll n task events timeout).netFd n =
      { t.netFd n with
        events := toShort (events ||| EPOLLET)
        owner_task := some task
        timer := if timeout > 0 then .armed else (t.netFd n).timer } := by
    rw [hnet]
    exact Function.update_self _ _ _
  have hcalls : ∀ u, (s.register n task events timeout).calls u =
      if u = task then some { netFd := n, timeout := timeout } else s.calls u :=
    SelectIoWait.register_calls
  have htimer : ((s.register n task events timeout).netFd n).timer =
      if timeout > 0 then .armed else (s.netFd n).timer := by
    simp [SelectIoWait.register, SelectIoWait.pollsetAdd]
  have hnone : (s.netFd n).timer = .none := h.idle n hout
  constructor
  case selected => exact hselected
  case mirrored => exact hmirrored
  case live => exact h.live
  case alive => exact halive
  case nodes =>
    rw [hmap, SelectIoWait.register_fd_map]
    show Multimap.insertNode _ t.fd_map.nodes = Multimap.insertNode _ s.fd_map.nodes
    rw [h.nodes, h.nextId, h.fd]
  case nextId =>
    rw [hmap, SelectIoWait.register_fd_map]
    exact congrArg (· + 1) h.nextId
  case notify => rw [hnotify, h.notify]; rfl
  case interrupter => rw [hnotify, hlookup, h.interrupter]
  case fd =>
    intro m
    rw [SelectIoWait.register_fd, ← h.fd]
    by_cases hmn : m = n
    · rw [hmn, hnet_self]
    · rw [hnet_of_ne m hmn]
  case shared =>
    intro m
    by_cases hmn : m = n
    · have hshared : ((s.register n task events timeout).netFd n).shared = (s.netFd n).shared := by
        simp [SelectIoWait.register, SelectIoWait.pollsetAdd]
      rw [hmn, hnet_self, hshared]
      exact h.shared n
    · rw [hnet_of_ne m hmn, SelectIoWait.register_netFd_of_ne hmn]
      exact h.shared m
  case events =>
    intro m hm
    by_cases hmn : m = n
    · have hrest : ofShort (s.netFd n).events = 0 := h.selected.rest n hn
      rw [hmn, hnet_self, SelectIoWait.register_netFd_self.1, hrest]
      rcases hwaits with rfl | rfl
      · show toShort (POLLIN ||| EPOLLET) = toShort (0 ||| POLLIN)
        decide
      · show toShort (POLLOUT ||| EPOLLET) = toShort (0 ||| POLLOUT)
        decide
    · rw [hnet_of_ne m hmn, SelectIoWait.register_netFd_of_ne hmn]
      exact h.events m (hvalues m hm hmn)
  case owner =>
    intro m u
    rw [hcalls]
    by_cases hmn : m = n
    · rw [hmn, hnet_self]
      by_cases hu : u = task
      · rw [if_pos hu, hu]
        exact iff_of_true rfl ⟨_, rfl, rfl⟩
      · rw [if_neg hu]
        apply iff_of_false
        · exact fun heq => hu (Option.some.inj heq).symm
        · rintro ⟨c, hc, hcn⟩
          exact hout ⟨u, c, hc, hcn⟩
    · rw [hnet_of_ne m hmn]
      by_cases hu : u = task
      · rw [if_pos hu]
        apply iff_of_false
        · intro heq
          obtain ⟨c, hc, -⟩ := (h.owner m u).mp heq
          rw [hu, hcall] at hc
          cases hc
        · rintro ⟨c, hc, hcn⟩
          cases hc
          exact hmn hcn.symm
      · rw [if_neg hu]
        exact h.owner m u
  case timer =>
    intro m
    by_cases hmn : m = n
    · rw [hmn, hnet_self, htimer, h.timer]
    · rw [hnet_of_ne m hmn, SelectIoWait.register_netFd_of_ne hmn]
      exact h.timer m
  case idle =>
    intro m hm
    have hmn : m ≠ n := by
      rintro rfl
      exact hm ⟨task, _, (hcalls task).trans (if_pos rfl), rfl⟩
    rw [SelectIoWait.register_netFd_of_ne hmn]
    exact h.idle m (SelectIoWait.not_inPoll_of_register hcall hm)
  case untimed =>
    intro u c hc hle
    rw [hcalls] at hc
    split at hc
    · cases hc
      have hle : ¬ timeout > 0 := not_lt.mpr hle
      rw [htimer, if_neg hle]
      exact hnone
    · rw [SelectIoWait.register_netFd_of_ne fun heq => hout ⟨u, c, hc, heq⟩]
      exact h.untimed u c hc hle
  case runnable =>
    intro u c hc hm
    rw [SelectIoWait.mem_values_register, not_or] at hm
    rw [hcalls] at hc
    split at hc
    · cases hc
      exact absurd rfl hm.1
    · exact h.runnable u c hc hm.2
  case revents =>
    rintro m ⟨u, c, hc, rfl⟩ hm htimer
    rw [SelectIoWait.mem_values_register, not_or] at hm
    rw [hcalls] at hc
    split at hc
    · cases hc
      exact absurd rfl hm.1
    · rw [SelectIoWait.register_netFd_of_ne hm.1] at htimer
      rw [hnet_of_ne _ hm.1]
      exact h.revents _ ⟨u, c, hc, rfl⟩ hm.2 htimer

end Poll

/-! ## Timeouts -/

/-- The callback of a timer takes the `NetFD` out of `fd_map` and wakes its task. -/
theorem timeoutCallback_epoll (h : t.Mirrored) (halive : t.halted = false)
    (hmapped : ∃ itr ∈ t.fd_map.nodes, itr.value = n) :
    (t.timeoutCallback n).netFd = Function.update t.netFd n { t.netFd n with timer := .fired } ∧
      (t.timeoutCallback n).fd_map.nodes = (t.fd_map.nodes.filter fun k => k.value ≠ n) ∧
      (t.timeoutCallback n).fd_map.nextId = t.fd_map.nextId ∧
      (t.timeoutCallback n).pushed = t.pushed ++ (t.netFd n).owner_task.toList ∧
      (t.timeoutCallback n).halted = false ∧
      (t.timeoutCallback n).notify_socket = t.notify_socket ∧
      (t.timeoutCallback n).epoll.lookup t.notify_socket = t.epoll.lookup t.notify_socket := by
  generalize hu : t.setNetFd n { t.netFd n with timer := .fired } = u
  have hnet : u.netFd = Function.update t.netFd n { t.netFd n with timer := .fired } := hu ▸ rfl
  have hmap : u.fd_map = t.fd_map := hu ▸ rfl
  have hfd : (u.netFd n).fd = (t.netFd n).fd := by rw [hnet, Function.update_self]
  have hentries : u.entries (u.netFd n).fd = t.entries (t.netFd n).fd := by
    rw [hfd, EpollIoWait.entries, hmap, EpollIoWait.entries]
  have hne : t.entries (t.netFd n).fd ≠ [] := by
    obtain ⟨itr, hitr, rfl⟩ := hmapped
    exact List.ne_nil_of_mem (EpollIoWait.mem_entries.mpr ⟨hitr, (h.key itr hitr).symm⟩)
  have hassert : u.assert .timed (!(u.entries (u.netFd n).fd).isEmpty) = u := by
    simp [EpollIoWait.assert, hentries, hne]
  have halive' : u.halted = false := hu ▸ halive
  obtain ⟨hkeeps, hnet', hnodes, -⟩ :=
    EpollIoWait.dropNetFd_spec n (u.entries (u.netFd n).fd) u 0
  obtain ⟨hid, hpushed, hndebug⟩ := EpollIoWait.dropNetFd_frame n (u.entries (u.netFd n).fd) u 0
  have hdel : u.pollsetTimeoutDel n =
      (EpollIoWait.dropNetFd n (u.entries (u.netFd n).fd) u 0).1.settle (u.netFd n).fd
        (EpollIoWait.dropNetFd n (u.entries (u.netFd n).fd) u 0).2 := by
    unfold EpollIoWait.pollsetTimeoutDel
    simp only [hassert, halive', Bool.false_eq_true, if_false]
  generalize EpollIoWait.dropNetFd n (u.entries (u.netFd n).fd) u 0 = r
    at hkeeps hnet' hnodes hid hpushed hndebug hdel
  have hregistered : (u.netFd n).fd ∈ r.1.epoll := by
    rw [hkeeps.epoll, hfd, ← hu]
    exact (h.mirror _ (h.foreign n)).registered.mpr hne
  have hlookup : (u.pollsetTimeoutDel n).epoll.lookup t.notify_socket =
      t.epoll.lookup t.notify_socket := by
    rw [hdel, EpollIoWait.elsewhere_settle.lookup _ (hfd ▸ (h.foreign n).symm), hkeeps.epoll, ← hu]
    rfl
  obtain ⟨epoll, cnt, hsettle, -⟩ := EpollIoWait.settle_of_mem r.2 hregistered
  rw [hsettle] at hdel
  have halive'' : (u.pollsetTimeoutDel n).halted = false := by
    rw [hdel]
    show (!r.1.ndebug && !r.1.failed.isEmpty) = false
    rw [hndebug, hkeeps.failed]
    exact halive'
  have hcallback : t.timeoutCallback n = (u.pollsetTimeoutDel n).removeNetFd2TaskRunnable n := by
    unfold EpollIoWait.timeoutCallback
    dsimp only
    rw [hu, halive'', if_neg Bool.false_ne_true]
  rw [hcallback]
  refine ⟨?_, ?_, ?_, ?_, halive'', ?_, hlookup⟩
  · show (u.pollsetTimeoutDel n).netFd = _
    rw [hdel]
    exact hnet'.trans hnet
  · show (u.pollsetTimeoutDel n).fd_map.nodes = _
    rw [hdel, ← hmap]
    refine hnodes.trans (List.filter_congr fun k hk => ?_)
    rw [EpollIoWait.any_entries hk, Bool.eq_iff_iff, Bool.not_eq_true', Bool.and_eq_false_iff,
      decide_eq_true_iff, decide_eq_false_iff_not, decide_eq_false_iff_not]
    constructor
    · rintro (hkey | hvalue) heq
      · rw [hmap] at hk
        rw [hfd, ← heq, h.key k hk] at hkey
        exact hkey rfl
      · exact hvalue heq
    · exact .inr
  · show (u.pollsetTimeoutDel n).fd_map.nextId = _
    rw [hdel, ← hmap]
    exact hid
  · show (u.pollsetTimeoutDel n).pushed ++ ((u.pollsetTimeoutDel n).netFd n).owner_task.toList = _
    rw [hdel]
    show r.1.pushed ++ (r.1.netFd n).owner_task.toList = _
    rw [hnet', hpushed, hnet, Function.update_self, ← hu]
    rfl
  · show (u.pollsetTimeoutDel n).notify_socket = _
    rw [hdel]
    refine hkeeps.notify.trans ?_
    rw [← hu]
    rfl

theorem timeoutCallback_select (h : s.Mirrored) (hn : n ∈ s.fd_map.values)
    (hlive : s.ended = none) :
    (s.timeoutCallback n).fd_map.nodes = (s.fd_map.nodes.filter fun k => k.value ≠ n) ∧
      (∀ m ≠ n, (s.timeoutCallback n).netFd m = s.netFd m) ∧
      ((s.timeoutCallback n).netFd n).timer = .fired ∧
      ((s.timeoutCallback n).netFd n).shared = (s.netFd n).shared ∧
      (s.timeoutCallback n).notify_socket = s.notify_socket := by
  obtain ⟨m, hnodes, heq⟩ := h.timeoutCallback_eq hn hlive
  obtain ⟨-, htimer⟩ := h.timeoutCallback_taken hn hlive
  generalize hu : ({ s.fire n with fd_map := m } : SelectIoWait) = u at heq
  have hmap : (s.timeoutCallback n).fd_map = m := by
    rw [heq, ← hu]
    exact SelectIoWait.clearUnless_frame.1
  refine ⟨?_, fun k hk => ?_, htimer, ?_, ?_⟩
  · rw [hmap, hnodes]
  · rw [heq]
    show (u.clearUnless n (s.others n)).netFd k = _
    have hfire : u.netFd k = s.netFd k := hu ▸ SelectIoWait.setNetFd_of_ne hk _
    unfold SelectIoWait.clearUnless
    split
    · rw [SelectIoWait.pollsetDel_netFd_of_ne hk, hfire]
    · exact hfire
  · rw [heq]
    show ((u.clearUnless n (s.others n)).netFd n).shared = _
    have hfire : (u.netFd n).shared = (s.netFd n).shared := by
      rw [← hu]
      show ((s.fire n).netFd n).shared = _
      rw [SelectIoWait.fire, SelectIoWait.setNetFd_self]
    unfold SelectIoWait.clearUnless
    split
    · by_cases hevents : (u.netFd n).events = 0
      · unfold SelectIoWait.pollsetDel
        rw [if_pos hevents, hfire]
      · rw [SelectIoWait.pollsetDel_netFd_self hevents, hfire]
    · exact hfire
  · rw [heq]
    show (u.clearUnless n (s.others n)).notify_socket = _
    unfold SelectIoWait.clearUnless
    split
    · rw [SelectIoWait.pollsetDel_frame.2.2.2.2.2.1, ← hu]
      rfl
    · rw [← hu]
      rfl

theorem Agree.timeoutCallback (h : Agree s t) (htimer : (s.netFd n).timer = .armed) :
    Agree (s.timeoutCallback n) (t.timeoutCallback n) := by
  have hn : n ∈ s.fd_map.values := h.selected.timer n htimer
  have hmapped : ∃ itr ∈ t.fd_map.nodes, itr.value = n := by
    rw [h.nodes]
    exact List.mem_map.mp hn
  obtain ⟨htaken, -⟩ := h.selected.timeoutCallback_taken hn h.live
  obtain ⟨hnodes, hothers, hfired, hshared, hnotify⟩ :=
    timeoutCallback_select h.selected hn h.live
  obtain ⟨hnet', hnodes', hid', -, halive', hnotify', hlookup'⟩ :=
    timeoutCallback_epoll h.mirrored h.alive hmapped
  have hothers' : ∀ m ≠ n, (t.timeoutCallback n).netFd m = t.netFd m := by
    intro m hm
    rw [hnet']
    exact Function.update_of_ne hm _ _
  have hself' : (t.timeoutCallback n).netFd n = { t.netFd n with timer := .fired } := by
    rw [hnet', Function.update_self]
  have hin : ∀ {m}, (s.timeoutCallback n).inPoll m ↔ s.inPoll m := by
    intro m
    rw [SelectIoWait.inPoll, htaken.calls, SelectIoWait.inPoll]
  constructor
  case selected => exact h.selected.timeoutCallback hn h.live
  case mirrored => exact h.mirrored.timeoutCallback h.alive (h.timer n ▸ htimer)
  case live => rw [htaken.ended, h.live]
  case alive => exact halive'
  case nodes => rw [hnodes, hnodes', h.nodes]
  case nextId => rw [hid', s.timeoutCallback_nextId, h.nextId]
  case notify => rw [hnotify', hnotify, h.notify]
  case interrupter => rw [hnotify', hlookup', h.interrupter]
  case fd =>
    intro m
    rw [htaken.fd, ← h.fd]
    by_cases hm : m = n
    · rw [hm, hself']
    · rw [hothers' m hm]
  case shared =>
    intro m
    by_cases hm : m = n
    · rw [hm, hself', hshared, h.shared]
    · rw [hothers' m hm, hothers m hm, h.shared]
  case events =>
    intro m hm
    obtain ⟨hm, hmn⟩ := htaken.mem_values.mp hm
    rw [hothers' m hmn, hothers m hmn, h.events m hm]
  case owner =>
    intro m u
    rw [htaken.calls, ← h.owner]
    by_cases hm : m = n
    · rw [hm, hself']
    · rw [hothers' m hm]
  case timer =>
    intro m
    by_cases hm : m = n
    · rw [hm, hself', hfired]
    · rw [hothers' m hm, hothers m hm, h.timer]
  case idle =>
    intro m hm
    have hmn : m ≠ n := by
      rintro rfl
      exact hm (hin.mpr (h.selected.mapped m hn))
    rw [hothers m hmn]
    exact h.idle m fun h => hm (hin.mpr h)
  case untimed =>
    intro u c hc hle
    rw [htaken.calls] at hc
    have hcn : c.netFd ≠ n := by
      intro heq
      have hnone := h.untimed u c hc hle
      rw [heq, htimer] at hnone
      cases hnone
    rw [hothers _ hcn]
    exact h.untimed u c hc hle
  case runnable =>
    intro u c hc hout
    rw [htaken.calls] at hc
    rw [htaken.queue, List.mem_append]
    by_cases hcn : c.netFd = n
    · right
      rw [← hcn, h.selected.called u c hc]
      exact List.mem_singleton.mpr rfl
    · left
      exact h.runnable u c hc fun hin => hout (htaken.mem_values.mpr ⟨hin, hcn⟩)
  case revents =>
    intro m hcall hout hnone
    have hmn : m ≠ n := by
      rintro rfl
      rw [hfired] at hnone
      cases hnone
    rw [hothers m hmn] at hnone
    rw [hothers' m hmn]
    exact h.revents m (hin.mp hcall) (fun hin => hout (htaken.mem_values.mpr ⟨hin, hmn⟩)) hnone

/-! ## `Poll` returns -/

theorem Agree.pollReturn (h : Agree s t) {task : Nat} {c : PollCall}
    (hc : s.calls task = some c) (htask : task ∈ s.runnableQueue_) :
    Agree (s.pollReturn task c)
      (t.setNetFd c.netFd { t.netFd c.netFd with owner_task := none, timer := .none }) := by
  obtain ⟨hmap, hcalls, hqueue, hended⟩ := @SelectIoWait.pollReturn_frame s task c
  have hcalls' : ∀ u, (s.pollReturn task c).calls u = if u = task then none else s.calls u := by
    intro u
    rw [hcalls]
    exact Function.update_apply _ _ _ _
  have hout : c.netFd ∉ s.fd_map.values := by
    obtain ⟨d, hd, hout⟩ := h.selected.queue task htask
    rw [hc] at hd
    cases hd
    exact hout
  have hmn : ∀ {u d}, (s.pollReturn task c).calls u = some d →
      s.calls u = some d ∧ u ≠ task ∧ d.netFd ≠ c.netFd := by
    intro u d hd
    rw [hcalls'] at hd
    split at hd
    · cases hd
    · rename_i hu
      exact ⟨hd, hu, fun heq => hu (h.selected.eq_of_netFd hd hc heq)⟩
  have htimer : ((s.pollReturn task c).netFd c.netFd).timer = .none := by
    rw [SelectIoWait.pollReturn_netFd_self]
    split
    · rfl
    · rename_i htimed
      by_cases hle : c.timeout ≤ 0
      · exact h.untimed task c hc hle
      · by_contra htimer
        exact htimed ⟨not_le.mp hle, htimer⟩
  have hnotify : (s.pollReturn task c).notify_socket = s.notify_socket := by
    unfold SelectIoWait.pollReturn
    dsimp only
    split <;> rfl
  have hself : (t.setNetFd c.netFd { t.netFd c.netFd with
      owner_task := none, timer := PollTimer.none }).netFd c.netFd =
        { t.netFd c.netFd with owner_task := none, timer := .none } :=
    Function.update_self _ _ _
  have hothers : ∀ m ≠ c.netFd, (t.setNetFd c.netFd { t.netFd c.netFd with
      owner_task := none, timer := PollTimer.none }).netFd m = t.netFd m :=
    fun m hm => Function.update_of_ne hm _ _
  constructor
  case selected => exact h.selected.pollReturn hc htask
  case mirrored =>
    apply h.mirrored.setNetFd
    · rintro itr hitr heq
      exact hout (List.mem_map.mpr ⟨itr, h.nodes ▸ hitr, heq⟩)
    · rfl
    · show PollTimer.none ≠ .armed
      decide
  case live => rw [hended, h.live]
  case alive => exact h.alive
  case nodes => rw [hmap]; exact h.nodes
  case nextId => rw [hmap]; exact h.nextId
  case notify => rw [hnotify]; exact h.notify
  case interrupter => exact h.interrupter
  case fd =>
    intro m
    rw [SelectIoWait.pollReturn_fd, ← h.fd]
    by_cases hm : m = c.netFd
    · rw [hm, hself]
    · rw [hothers m hm]
  case shared =>
    intro m
    by_cases hm : m = c.netFd
    · rw [hm, hself, SelectIoWait.pollReturn_netFd_self]
      split <;> exact h.shared _
    · rw [hothers m hm, SelectIoWait.pollReturn_netFd_of_ne hm, h.shared]
  case events =>
    intro m hm
    rw [hmap] at hm
    have hmc : m ≠ c.netFd := by
      rintro rfl
      exact hout hm
    rw [hothers m hmc, SelectIoWait.pollReturn_netFd_of_ne hmc, h.events m hm]
  case owner =>
    intro m u
    by_cases hm : m = c.netFd
    · rw [hm, hself]
      apply iff_of_false nofun
      rintro ⟨d, hd, hdn⟩
      exact (hmn hd).2.2 hdn
    · rw [hothers m hm, h.owner, hcalls']
      by_cases hu : u = task
      · rw [if_pos hu, hu]
        apply iff_of_false
        · rintro ⟨d, hd, hdn⟩
          rw [hc] at hd
          cases hd
          exact hm hdn.symm
        · rintro ⟨d, hd, -⟩
          cases hd
      · rw [if_neg hu]
  case timer =>
    intro m
    by_cases hm : m = c.netFd
    · rw [hm, hself, htimer]
    · rw [hothers m hm, SelectIoWait.pollReturn_netFd_of_ne hm, h.timer]
  case idle =>
    intro m hm
    by_cases hmc : m = c.netFd
    · rw [hmc, htimer]
    · rw [SelectIoWait.pollReturn_netFd_of_ne hmc]
      apply h.idle m
      rintro ⟨u, d, hd, rfl⟩
      refine hm ⟨u, d, ?_, rfl⟩
      rw [hcalls', if_neg, hd]
      rintro rfl
      rw [hc] at hd
      cases hd
      exact hmc rfl
  case untimed =>
    intro u d hd hle
    obtain ⟨hd, -, hne⟩ := hmn hd
    rw [SelectIoWait.pollReturn_netFd_of_ne hne]
    exact h.untimed u d hd hle
  case runnable =>
    intro u d hd hdout
    obtain ⟨hd, hu, -⟩ := hmn hd
    rw [hmap] at hdout
    rw [hqueue, h.selected.nodup.mem_erase_iff]
    exact ⟨hu, h.runnable u d hd hdout⟩
  case revents =>
    rintro m ⟨u, d, hd, rfl⟩ hdout hnone
    obtain ⟨hd, -, hne⟩ := hmn hd
    rw [hmap] at hdout
    rw [SelectIoWait.pollReturn_netFd_of_ne hne] at hnone
    rw [hothers _ hne]
    exact h.revents _ ⟨u, d, hd, rfl⟩ hdout hnone

/-! ## Every step -/

theorem mayReport_mask {e : EpollEvent} {x : BitVec 32} (hmay : t.mayReport e = true)
    (hx : Selectable x) (hand : e.events &&& x ≠ 0) :
    ∃ m, t.epoll.lookup e.fd = some m ∧ m &&& ~~~EPOLLET &&& x ≠ 0 := by
  unfold EpollIoWait.mayReport at hmay
  cases hlookup : t.epoll.lookup e.fd with
  | none =>
      rw [hlookup] at hmay
      cases hmay
  | some m =>
      rw [hlookup] at hmay
      refine ⟨m, rfl, fun hzero => ?_⟩
      have hnot : ((m &&& ~~~EPOLLET) ||| POLLERR ||| POLLHUP) &&& x = 0 := by
        rw [BitVec.and_comm, BitVec.and_or_distrib_left, BitVec.and_or_distrib_left,
          BitVec.and_comm x (m &&& ~~~EPOLLET), hzero]
        rcases hx with rfl | rfl | rfl <;> decide
      have hdisjoint : e.events &&& ~~~((m &&& ~~~EPOLLET) ||| POLLERR ||| POLLHUP) = 0 :=
        eq_of_beq (Bool.and_eq_true_iff.mp hmay).2
      have hmask := SelectIoWait.and_flag_of_disjoint (SelectIoWait.Selectable.isFlag hx)
        hdisjoint hand
      -- the flag is neither in the mask nor in its complement
      rw [BitVec.and_comm, (SelectIoWait.Selectable.isFlag hx).and_not, if_pos hnot] at hmask
      exact (SelectIoWait.Selectable.isFlag hx).ne_zero hmask

/-- The bits of an event that is reported are set for `select`, and there is no exception. -/
theorem Agree.reported_set (h : Agree s t) {e : EpollEvent} {x : BitVec 32}
    (hmay : t.mayReport e = true) (hx : Selectable x) (hand : e.events &&& x ≠ 0) :
    Waits x ∧ s.fdSet x e.fd = true := by
  obtain ⟨m, hlookup, hmask⟩ := mayReport_mask hmay hx hand
  by_cases hfd : e.fd = t.notify_socket
  · rw [hfd, h.interrupter] at hlookup
    cases hlookup
    have hin : x = POLLIN := by
      rcases hx with rfl | rfl | rfl
      · rfl
      · exact absurd hmask (by decide)
      · exact absurd hmask (by decide)
    refine ⟨.inl hin, ?_⟩
    rw [h.selected.set x (.inl hin), hfd, h.notify]
    exact .inl ⟨hin, rfl⟩
  · rw [(h.mirrored.mirror e.fd hfd).mask m hlookup, EpollIoWait.requested, Flags.union_and, ne_eq,
      Flags.union_eq_zero_iff] at hmask
    push Not at hmask
    obtain ⟨y, hy, hne⟩ := hmask
    obtain ⟨z, hz, rfl⟩ := List.mem_map.mp hy
    obtain ⟨itr, hitr, rfl⟩ := List.mem_map.mp hz
    obtain ⟨hmem, hkey⟩ := EpollIoWait.mem_entries.mp hitr
    obtain ⟨hwaits, hevents⟩ := h.waits hmem
    have hsame : x = ofShort (t.netFd itr.value).events := by
      rcases hx with rfl | rfl | rfl <;> rcases hwaits with he | he <;>
        rw [EpollIoWait.events, he] at hne <;> first
          | exact he.symm
          | exact absurd hne (by decide)
    refine ⟨hsame ▸ hwaits, ?_⟩
    rw [h.selected.set x (hsame ▸ hwaits)]
    refine .inr ⟨itr.value, ?_, ?_, ?_⟩
    · rw [Multimap.values, ← h.nodes]
      exact List.mem_map_of_mem hmem
    · rw [← h.fd, h.mirrored.key itr hmem, hkey]
    · rw [SelectIoWait.events, ← hevents, hsame]

theorem Agree.registered_reports (h : Agree s t) {reports : List EpollEvent}
    (hmay : ∀ e ∈ reports, t.mayReport e = true) : s.registered (.ofReports reports) = true := by
  have hset : ∀ x, Selectable x → ∀ fd ∈ (reports.filter fun e =>
      e.events &&& x != 0).map EpollEvent.fd, Waits x ∧ s.fdSet x fd = true := by
    intro x hx fd hfd
    obtain ⟨e, he, rfl⟩ := List.mem_map.mp hfd
    rw [List.mem_filter, bne_iff_ne] at he
    exact h.reported_set (hmay e he.1) hx he.2
  unfold SelectIoWait.registered
  rw [Bool.and_eq_true, Bool.and_eq_true, List.all_eq_true, List.all_eq_true, List.all_eq_true]
  refine ⟨⟨fun fd hfd => ?_, fun fd hfd => ?_⟩, fun fd hfd => ?_⟩
  · exact (hset POLLIN (.inl rfl) fd hfd).2
  · exact (hset POLLOUT (.inr (.inl rfl)) fd hfd).2
  · obtain ⟨hwaits, -⟩ := hset POLLPRI (.inr (.inr rfl)) fd hfd
    rcases hwaits with heq | heq <;> exact absurd heq (by decide)

def Wakes (s s' : SelectIoWait) (t t' : EpollIoWait) : Prop :=
  ∃ l l', s'.runnableQueue_ = s.runnableQueue_ ++ l ∧ t'.pushed = t.pushed ++ l' ∧ l.Perm l'

/-- A step is possible for both or for none, and wakes the same tasks. -/
def Matches (b : BackEnds) (a : IoEvent) : Prop :=
  (b.select.step a.select = none ∧ b.epoll.step a.epoll = none) ∨
    ∃ s t, b.select.step a.select = some s ∧ b.epoll.step a.epoll = some t ∧ Agree s t ∧
      ((∀ n task, a ≠ .pollReturn n task) → Wakes b.select s b.epoll t)

variable {b : BackEnds}

theorem Agree.matches_poll (h : Agree b.select b.epoll) {n task : Nat} {events : BitVec 32}
    {timeout : Int} (hc : b.Common (.poll n task events timeout)) :
    b.Matches (.poll n task events timeout) := by
  obtain ⟨hwaits, hcall, howner, hsize, halone, hshare⟩ := hc
  refine .inr ⟨b.select.poll n task events timeout, b.epoll.poll n task events timeout, ?_, ?_,
    h.poll hwaits hcall howner hsize halone hshare, fun _ => ?_⟩
  · unfold SelectIoWait.step
    rw [h.live]
    exact (if_neg Bool.false_ne_true).trans (if_pos hcall)
  · unfold EpollIoWait.step
    rw [h.alive]
    exact (if_neg Bool.false_ne_true).trans (if_pos (h.owner_none howner))
  · refine ⟨[], [], ?_, ?_, .refl _⟩
    · rw [List.append_nil]
      obtain ⟨-, heq⟩ | ⟨-, heq⟩ | ⟨-, -, heq⟩ := b.select.poll_cases n task events timeout
      · rw [heq]
      · rw [heq]
      · rw [heq]
        rfl
    · rw [List.append_nil]
      by_cases hfd : (b.select.netFd n).fd < 0
      · rw [(@Agree.poll_invalid _ _ n task events timeout h howner hfd).2]
      · exact (h.poll_epoll hwaits howner (not_lt.mp hfd) hshare).2.2.2.2.2

theorem Agree.matches_waitLoop (h : Agree b.select b.epoll) {reports : List EpollEvent}
    (hc : b.Common (.waitLoop reports)) : b.Matches (.waitLoop reports) := by
  obtain ⟨hdistinct, hreport, hlength⟩ := hc
  have hreported : Reported b.epoll reports :=
    ⟨hdistinct, fun e he => (hreport e he).1, fun e he => (hreport e he).2⟩
  refine .inr ⟨_, _, ?_, ?_, h.waitLoop hreported, fun _ => h.waitLoop_perm hreported⟩
  · unfold SelectIoWait.step
    rw [h.live]
    exact (if_neg Bool.false_ne_true).trans (if_pos (h.registered_reports hreported.may))
  · unfold EpollIoWait.step
    rw [h.alive]
    exact (if_neg Bool.false_ne_true).trans (if_pos hlength)

theorem Agree.matches_timeout (h : Agree b.select b.epoll) (n : Nat) : b.Matches (.timeout n) := by
  have hselect : b.select.step (.timeout n) = if (b.select.netFd n).timer = .armed
      then some (b.select.timeoutCallback n) else none := by
    unfold SelectIoWait.step
    rw [h.live]
    exact if_neg Bool.false_ne_true
  have hepoll : b.epoll.step (.timeout n) = if (b.epoll.netFd n).timer = .armed
      then some (b.epoll.timeoutCallback n) else none := by
    unfold EpollIoWait.step
    rw [h.alive]
    exact if_neg Bool.false_ne_true
  by_cases htimer : (b.select.netFd n).timer = .armed
  · have hn : n ∈ b.select.fd_map.values := h.selected.timer n htimer
    have hmapped : ∃ itr ∈ b.epoll.fd_map.nodes, itr.value = n := by
      rw [h.nodes]
      exact List.mem_map.mp hn
    obtain ⟨htaken, -⟩ := h.selected.timeoutCallback_taken hn h.live
    obtain ⟨-, -, -, hpushed, -⟩ := timeoutCallback_epoll h.mirrored h.alive hmapped
    refine .inr ⟨_, _, hselect.trans (if_pos htimer), hepoll.trans (if_pos ?_),
      h.timeoutCallback htimer, fun _ => ⟨_, _, htaken.queue, hpushed, ?_⟩⟩
    · rw [h.timer, htimer]
    · rw [h.owner_eq hn]
  · refine .inl ⟨hselect.trans (if_neg htimer), hepoll.trans (if_neg ?_)⟩
    rw [h.timer]
    exact htimer

theorem Agree.matches_pollReturn (h : Agree b.select b.epoll) {n task : Nat}
    (hc : b.Common (.pollReturn n task)) : b.Matches (.pollReturn n task) := by
  obtain ⟨c, hc, rfl⟩ := hc
  have hselect : b.select.step (.pollReturn task) = if task ∈ b.select.runnableQueue_
      then some (b.select.pollReturn task c) else none := by
    unfold SelectIoWait.step
    rw [h.live]
    refine (if_neg Bool.false_ne_true).trans ?_
    dsimp only
    rw [hc]
  have hepoll : b.epoll.step (.pollReturn c.netFd) =
      if (b.epoll.netFd c.netFd).owner_task ≠ none ∧ b.epoll.mapped c.netFd = false
      then some (b.epoll.setNetFd c.netFd
        { b.epoll.netFd c.netFd with owner_task := none, timer := .none }) else none := by
    unfold EpollIoWait.step
    rw [h.alive]
    exact if_neg Bool.false_ne_true
  have howner : (b.epoll.netFd c.netFd).owner_task ≠ none := by
    rw [(h.owner c.netFd task).mpr ⟨c, hc, rfl⟩]
    exact Option.some_ne_none task
  have hmapped : b.epoll.mapped c.netFd = false ↔ task ∈ b.select.runnableQueue_ := by
    have hvalues : b.epoll.mapped c.netFd = false ↔ c.netFd ∉ b.select.fd_map.values := by
      unfold EpollIoWait.mapped
      rw [List.any_eq_false, h.nodes, Multimap.values, List.mem_map]
      simp
    rw [hvalues]
    constructor
    · exact h.runnable task c hc
    · intro htask
      obtain ⟨d, hd, hout⟩ := h.selected.queue task htask
      rw [hc] at hd
      cases hd
      exact hout
  by_cases htask : task ∈ b.select.runnableQueue_
  · exact .inr ⟨_, _, hselect.trans (if_pos htask), hepoll.trans (if_pos ⟨howner, hmapped.mpr htask⟩),
      h.pollReturn hc htask, fun hne => absurd rfl (hne c.netFd task)⟩
  · exact .inl ⟨hselect.trans (if_neg htask), hepoll.trans (if_neg fun h => htask (hmapped.mp h.2))⟩

theorem Agree.matches (h : Agree b.select b.epoll) {a : IoEvent} (hc : b.Common a) :
    b.Matches a := by
  cases a with
  | poll n task events timeout => exact h.matches_poll hc
  | waitLoop reports => exact h.matches_waitLoop hc
  | timeout n => exact h.matches_timeout n
  | pollReturn n task => exact h.matches_pollReturn hc

theorem Agree.step {b' : BackEnds} (h : Agree b.select b.epoll) {a : IoEvent} (hc : b.Common a)
    (hs : b.step a = some b') : Agree b'.select b'.epoll := by
  unfold BackEnds.step at hs
  obtain ⟨hselect, -⟩ | ⟨s, t, hselect, hepoll, hagree, -⟩ := h.matches hc
  · rw [hselect] at hs
    cases hs
  · rw [hselect, hepoll] at hs
    cases hs
    exact hagree

/-! ## Every run -/

/-- Both have the same waiters and timers, let a `Poll` return the same, at once or to a woken
task, and make the same steps. -/
structure Interchangeable (b : BackEnds) : Prop where
  waiting : b.epoll.fd_map.nodes = b.select.fd_map.nodes
  interest : ∀ n ∈ b.select.fd_map.values,
    (b.epoll.netFd n).events = (b.select.netFd n).events ∧
      (b.epoll.netFd n).owner_task = (b.select.netFd n).owner_task
  timers : ∀ n, (b.epoll.netFd n).timer = (b.select.netFd n).timer
  results : ∀ u c errno, b.select.calls u = some c → u ∈ b.select.runnableQueue_ →
    b.epoll.pollResult c errno = b.select.pollResult c errno
  refusals : ∀ n task events timeout, b.Common (.poll n task events timeout) →
    b.epoll.refuses n events = b.select.refuses n events
  steps : ∀ a, b.Common a →
    ((b.select.step a.select).isSome ↔ (b.epoll.step a.epoll).isSome) ∧
      ∀ s t, b.select.step a.select = some s → b.epoll.step a.epoll = some t →
        (∀ n task, a ≠ .pollReturn n task) → Wakes b.select s b.epoll t

theorem Agree.results (h : Agree b.select b.epoll) {u : Nat} {c : PollCall} (errno : Nat)
    (hc : b.select.calls u = some c) (hu : u ∈ b.select.runnableQueue_) :
    b.epoll.pollResult c errno = b.select.pollResult c errno := by
  unfold EpollIoWait.pollResult SelectIoWait.pollResult
  rw [h.timer]
  split
  · rfl
  · rename_i htimed
    have hout : c.netFd ∉ b.select.fd_map.values := by
      obtain ⟨d, hd, hout⟩ := h.selected.queue u hu
      rw [hc] at hd
      cases hd
      exact hout
    have hnone : (b.select.netFd c.netFd).timer = .none := by
      by_cases hle : c.timeout ≤ 0
      · exact h.untimed u c hc hle
      · by_contra htimer
        exact htimed ⟨not_le.mp hle, htimer⟩
    dsimp only
    rcases h.revents c.netFd ⟨u, c, hc, rfl⟩ hout hnone with he | he <;> rw [he] <;> rfl

/-- With the same events, `SelectIoWait` and `EpollIoWait` are not to be told apart. -/
theorem interchangeable_of_reach (k : Sockets) (epoll_event_size rlim_max : Nat) (ndebug : Bool)
    (b : BackEnds) (h : Reach step Common (make k epoll_event_size rlim_max ndebug) b) :
    b.Interchangeable := by
  have hagree : Agree b.select b.epoll := h.invariant
    (I := fun b => Agree b.select b.epoll) (agree_make k epoll_event_size rlim_max ndebug)
    fun _ _ _ h hc hs => h.step hc hs
  refine ⟨hagree.nodes, fun n hn => ⟨hagree.events n hn, hagree.owner_eq hn⟩, hagree.timer,
    fun u c errno => hagree.results errno, ?_, fun a hc => ?_⟩
  · rintro n task events timeout ⟨hwaits, -, howner, hsize, -, hshare⟩
    exact hagree.refuses hwaits howner hsize hshare
  obtain ⟨hselect, hepoll⟩ | ⟨s, t, hselect, hepoll, -, hwakes⟩ := hagree.matches hc
  · refine ⟨by rw [hselect, hepoll]; exact iff_of_false nofun nofun, fun s t hs => ?_⟩
    rw [hselect] at hs
    cases hs
  · refine ⟨by rw [hselect, hepoll]; exact iff_of_true rfl rfl, fun s' t' hs ht => ?_⟩
    rw [hselect] at hs
    rw [hepoll] at ht
    cases hs
    cases ht
    exact hwakes

/-- The `NetFD` 0 on the descriptor 5, the others on 6. -/
def twoDescriptors : Sockets where
  fd n := if n = 0 then 5 else 6
  shared _ := false
  notify_socket := 4
  distinct n := by
    split <;> decide

/-- Both descriptors become ready, and `epoll_wait` reports 6 first. -/
theorem interchangeable_two_descriptors :
    ∃ b, Reach step Common (make twoDescriptors 8 64 false) b ∧
      b.select.runnableQueue_ = [7, 8] ∧ b.epoll.pushed = [8, 7] ∧ b.Interchangeable := by
  have hmake : Reach step Common (make twoDescriptors 8 64 false) (make twoDescriptors 8 64 false) :=
    .refl
  have hread := hmake.tail (a := IoEvent.poll 0 7 POLLIN 10)
    ⟨.inl rfl, rfl, rfl, by decide, nofun, .inl rfl⟩ rfl
  have hwrite := hread.tail (a := IoEvent.poll 1 8 POLLOUT 0)
    ⟨.inr rfl, rfl, rfl, by decide, by decide, .inl rfl⟩ rfl
  have hserved := hwrite.tail (a := IoEvent.waitLoop [⟨6, POLLOUT⟩, ⟨5, POLLIN⟩])
    ⟨by decide, by decide, by decide⟩ rfl
  exact ⟨_, hserved, rfl, rfl, interchangeable_of_reach twoDescriptors 8 64 false _ hserved⟩

end BackEnds

end CppGo.Netio
