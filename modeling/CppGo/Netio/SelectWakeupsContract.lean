import CppGo.Netio.SelectMirror
import CppGo.Netio.SelectWakeups

/-!
# No waiter is missed

A `NetFD` in `fd_map` has the bits of its events set, however the descriptors are shared, so that
`select` reports what it waits for, and `WaitLoop` wakes it for that.
-/

namespace CppGo.Netio

open CppGo.Lib CppGo.Lib.Machine

namespace SelectIoWait

variable {s t : SelectIoWait} {ready : Ready} {n : Nat}

/-- A pass of `WaitLoop` puts the tasks of the wake set into the run queue, each once, returns them
the events that have come, stops their timers and clears the bits of these events; the other
`NetFD`s are left alone. -/
structure WakesReady (s t : SelectIoWait) (ready : Ready) : Prop where
  queue : t.runnableQueue_ = s.runnableQueue_ ++
    (s.wakeups ready).filterMap fun itr => (s.netFd itr.value).owner_task
  once : t.runnableQueue_.Nodup
  suspended : ∀ itr ∈ s.wakeups ready, ∃ task c, (s.netFd itr.value).owner_task = some task ∧
    s.calls task = some c ∧ c.netFd = itr.value ∧ task ∉ s.runnableQueue_
  removed : t.fd_map.nodes = s.fd_map.nodes.filter fun itr => !ready.serves (s.netFd itr.value)
  woken : ∀ itr ∈ s.wakeups ready,
    t.netFd itr.value = (s.netFd itr.value).served (ready.occurred (s.netFd itr.value))
  others : ∀ n, (∀ itr ∈ s.wakeups ready, itr.value ≠ n) → t.netFd n = s.netFd n
  sets : ∀ e, Selectable e → ∀ fd, t.setOf e fd = (s.setOf e fd && !(s.wakeups ready).any fun itr =>
    itr.key = fd && ready.occurred (s.netFd itr.value) &&& e != 0)
  maxfd : t.maxfd = s.maxfd
  calls : t.calls = s.calls
  ended : t.ended = s.ended

structure Attentive (s : SelectIoWait) : Prop extends Linked s where
  quiet : ∀ n, n ∈ s.fd_map.values ∨ ¬ s.inPoll n → (s.netFd n).revents = 0
  asks : ∀ n ∈ s.fd_map.values, ∃ e, Selectable e ∧ s.events n &&& e ≠ 0
  listens : ∀ n ∈ s.fd_map.values, ∀ e, Selectable e → s.events n &&& e ≠ 0 →
    s.setOf e (s.netFd n).fd = true
  range : ∀ n ∈ s.fd_map.values, 0 ≤ (s.netFd n).fd ∧ (s.netFd n).fd < FD_SETSIZE ∧
    (s.netFd n).fd ≤ s.maxfd

theorem attentive_make (k : Sockets) (ndebug : Bool) : (make k ndebug).Attentive := by
  have hempty : ∀ n, n ∉ (make k ndebug).fd_map.values := fun n => List.not_mem_nil
  constructor
  case toLinked => exact linked_make k ndebug
  case quiet => exact fun n _ => rfl
  case asks => exact fun n hn => absurd hn (hempty n)
  case listens => exact fun n hn => absurd hn (hempty n)
  case range => exact fun n hn => absurd hn (hempty n)

/-! ## `WaitLoop` -/

theorem wakeups_of_none
    (h : ready.read.length + ready.write.length + ready.exception.length = 0) :
    s.wakeups ready = [] := by
  rw [wakeups, List.filter_eq_nil_iff]
  intro itr _
  rw [Ready.serves_iff, Ready.occurred_of_none h]
  exact not_not_intro rfl

theorem Linked.suspended (h : s.Linked) {itr : Node Int Nat} (hitr : itr ∈ s.fd_map.nodes) :
    ∃ task c, (s.netFd itr.value).owner_task = some task ∧ s.calls task = some c ∧
      c.netFd = itr.value ∧ task ∉ s.runnableQueue_ := by
  have hn : itr.value ∈ s.fd_map.values := List.mem_map_of_mem hitr
  obtain ⟨task, c, hc, hnet⟩ := h.mapped _ hn
  refine ⟨task, c, hnet ▸ h.called task c hc, hc, hnet, fun hqueue => ?_⟩
  obtain ⟨d, hd, hout⟩ := h.queue task hqueue
  rw [hc] at hd
  cases hd
  exact hout (hnet ▸ hn)

theorem Linked.wakesReady (h : s.Linked)
    (hquiet : ∀ n ∈ s.fd_map.values, (s.netFd n).revents = 0) (ready : Ready) :
    WakesReady s (s.waitLoop ready) ready := by
  have hlinked : (s.waitLoop ready).Linked := h.waitLoop
  have hsuspended : ∀ itr ∈ s.wakeups ready, ∃ task c, (s.netFd itr.value).owner_task = some task ∧
      s.calls task = some c ∧ c.netFd = itr.value ∧ task ∉ s.runnableQueue_ :=
    fun itr hitr => h.suspended (mem_wakeups.mp hitr).1
  by_cases hnone : ready.read.length + ready.write.length + ready.exception.length = 0
  · have hserves : ∀ f, ready.serves f = false := fun f => by
      rw [Ready.serves, Ready.occurred_of_none hnone]
      rfl
    have hsame : s.waitLoop ready = s := if_pos hnone
    have hwakeups := @wakeups_of_none s ready hnone
    rw [hsame] at hlinked ⊢
    constructor
    case once => exact h.nodup
    case suspended => exact hsuspended
    all_goals simp [hwakeups, hserves]
  · have hloop : s.waitLoop ready = s.fd_map.nodes.foldl (SelectIoWait.visit ready) s :=
      if_neg hnone
    obtain ⟨hqueue, hnodes, hnet, hsets, -, hcalls, hended, hmaxfd⟩ :=
      @foldl_visit_rouses ready s.fd_map.nodes s
        (fun itr hitr => hquiet _ (List.mem_map_of_mem hitr)) h.once
    rw [hloop] at hlinked ⊢
    constructor
    case queue => exact hqueue
    case once => exact hlinked.nodup
    case suspended => exact hsuspended
    case removed =>
      rw [hnodes]
      apply List.filter_congr
      intro k hk
      have hany : (s.fd_map.nodes.any fun itr => itr.id = k.id &&
          ready.serves (s.netFd itr.value)) = ready.serves (s.netFd k.value) := by
        rw [Bool.eq_iff_iff, List.any_eq_true]
        constructor
        · rintro ⟨itr, hitr, hid⟩
          rw [Bool.and_eq_true, decide_eq_true_iff] at hid
          rw [← Multimap.eq_of_id hitr hk hid.1]
          exact hid.2
        · exact fun hserves => ⟨k, hk, by simp [hserves]⟩
      rw [hany]
    case woken =>
      intro itr hitr
      obtain ⟨hmem, hserves⟩ := mem_wakeups.mp hitr
      rw [hnet, if_pos]
      exact List.any_eq_true.mpr ⟨itr, hmem, by simp [hserves]⟩
    case others =>
      intro n hn
      rw [hnet, if_neg]
      rw [List.any_eq_true]
      rintro ⟨itr, hitr, heq⟩
      rw [Bool.and_eq_true, decide_eq_true_iff] at heq
      exact hn itr (mem_wakeups.mpr ⟨hitr, heq.1 ▸ heq.2⟩) heq.1
    case sets =>
      intro e he fd
      rw [hsets e he fd]
      congr 2
      rw [Bool.eq_iff_iff, List.any_eq_true, List.any_eq_true]
      constructor
      · rintro ⟨itr, hitr, heq⟩
        rw [h.key itr hitr] at heq
        refine ⟨itr, mem_wakeups.mpr ⟨hitr, ?_⟩, heq⟩
        rw [Ready.serves_iff]
        intro hzero
        simp [hzero] at heq
      · rintro ⟨itr, hitr, heq⟩
        obtain ⟨hmem, -⟩ := mem_wakeups.mp hitr
        refine ⟨itr, hmem, ?_⟩
        rw [h.key itr hmem]
        exact heq
    case maxfd => exact hmaxfd
    case calls => exact hcalls
    case ended => exact hended

theorem WakesReady.mem_values (h : WakesReady s t ready) (hn : n ∈ t.fd_map.values) :
    n ∈ s.fd_map.values ∧ ready.occurred (s.netFd n) = 0 := by
  obtain ⟨itr, hitr, rfl⟩ := List.mem_map.mp hn
  rw [h.removed, List.mem_filter] at hitr
  refine ⟨List.mem_map_of_mem hitr.1, ?_⟩
  simpa [Ready.serves] using hitr.2

theorem WakesReady.stays (h : WakesReady s t ready) (hn : n ∈ t.fd_map.values) :
    t.netFd n = s.netFd n := by
  apply h.others
  rintro itr hitr rfl
  exact Ready.serves_iff.mp (mem_wakeups.mp hitr).2 (h.mem_values hn).2

theorem Selectable.isFlag {e : BitVec 32} (he : Selectable e) : Flags.IsFlag e := by
  rcases he with rfl | rfl | rfl
  · exact isFlag_pollin
  · exact isFlag_pollout
  · exact isFlag_pollpri

theorem and_flag_of_disjoint {x m e : BitVec 32} (he : Flags.IsFlag e) (hdisjoint : x &&& m = 0)
    (hx : x &&& e ≠ 0) : m &&& e = 0 := by
  obtain ⟨k, -, rfl⟩ := he
  rw [BitVec.and_twoPow] at hx ⊢
  have hbit := congrArg (BitVec.getLsbD · k) hdisjoint
  cases hk : x.getLsbD k with
  | false => simp [hk] at hx
  | true =>
      have hm : m.getLsbD k = false := by simpa [hk] using hbit
      simp [hm]

theorem Attentive.waitLoop (h : s.Attentive) (ready : Ready) : (s.waitLoop ready).Attentive := by
  have hpass := h.wakesReady (fun n hn => h.quiet n (.inl hn)) ready
  have hevents : ∀ n ∈ (s.waitLoop ready).fd_map.values,
      (s.waitLoop ready).events n = s.events n := by
    intro n hn
    rw [SelectIoWait.events, hpass.stays hn, SelectIoWait.events]
  constructor
  case toLinked => exact h.toLinked.waitLoop
  case quiet =>
    rintro n (hn | hout)
    · rw [hpass.stays hn]
      exact h.quiet n (.inl (hpass.mem_values hn).1)
    · have hout' : ¬ s.inPoll n := by
        rw [inPoll, hpass.calls] at hout
        exact hout
      rw [hpass.others]
      · exact h.quiet n (.inr hout')
      · rintro itr hitr rfl
        exact hout' (h.mapped _ (List.mem_map_of_mem (mem_wakeups.mp hitr).1))
  case asks =>
    intro n hn
    rw [hevents n hn]
    exact h.asks n (hpass.mem_values hn).1
  case listens =>
    intro n hn e he hasks
    obtain ⟨hmem, hnone⟩ := hpass.mem_values hn
    rw [hevents n hn] at hasks
    rw [hpass.stays hn, hpass.sets e he, h.listens n hmem e he hasks, Bool.true_and,
      Bool.not_eq_true', List.any_eq_false]
    intro itr hitr heq
    rw [Bool.and_eq_true, decide_eq_true_iff, bne_iff_ne] at heq
    -- the event has not come for `n`, so it has not come for another one with the descriptor
    apply heq.2
    have hmask := and_flag_of_disjoint (Selectable.isFlag he) hnone hasks
    rw [Ready.occurred, h.key itr (mem_wakeups.mp hitr).1, heq.1, BitVec.and_assoc, hmask]
    exact BitVec.and_zero
  case range =>
    intro n hn
    rw [hpass.stays hn, hpass.maxfd]
    exact h.range n (hpass.mem_values hn).1

/-! ## Timeouts -/

/-- The bits that another `NetFD` with the descriptor needs are not cleared. -/
theorem clearUnless_setOf {modEvents e : BitVec 32} (he : Selectable e) {fd : Int}
    (hset : s.setOf e fd = true) (hother : (s.netFd n).fd = fd → modEvents &&& e ≠ 0) :
    (s.clearUnless n modEvents).setOf e fd = true := by
  unfold clearUnless
  split
  · rename_i hdisjoint
    by_cases hevents : (s.netFd n).events = 0
    · unfold pollsetDel
      rw [if_pos hevents]
      exact hset
    · have hzero : s.events n ≠ 0 := by
        rwa [SelectIoWait.events, ne_eq, ofShort_eq_zero]
      rw [pollsetDel_setOf hevents hzero he, hset, Bool.true_and, Bool.not_eq_true',
        Bool.and_eq_false_iff]
      by_cases hfd : (s.netFd n).fd = fd
      · right
        rw [and_flag_of_disjoint (Selectable.isFlag he) hdisjoint (hother hfd)]
        rfl
      · left
        simpa using hfd
  · exact hset

theorem Linked.others_and (h : s.Linked) {k : Nat} (hk : k ∈ s.fd_map.values) (hkn : k ≠ n)
    (hfd : (s.netFd n).fd = (s.netFd k).fd) {e : BitVec 32} (hasks : s.events k &&& e ≠ 0) :
    s.others n &&& e ≠ 0 := by
  obtain ⟨itr, hitr, rfl⟩ := List.mem_map.mp hk
  have hmem : s.events itr.value ∈ ((s.entries (s.netFd n).fd).filter
      fun itr => itr.value ≠ n).map fun itr => s.events itr.value := by
    apply List.mem_map_of_mem
    rw [List.mem_filter, mem_entries, hfd, h.key itr hitr]
    exact ⟨⟨hitr, rfl⟩, by simpa using hkn⟩
  rw [SelectIoWait.others, Flags.union_and]
  intro hzero
  exact hasks (Flags.union_eq_zero_iff.mp hzero _ (List.mem_map_of_mem hmem))

theorem Attentive.timeoutCallback (h : s.Attentive) (hn : n ∈ s.fd_map.values)
    (hlive : s.ended = none) : (s.timeoutCallback n).Attentive := by
  obtain ⟨m, -, heq⟩ := h.timeoutCallback_eq hn hlive
  obtain ⟨htaken, -⟩ := h.timeoutCallback_taken hn hlive
  have hvalues : ∀ {k}, k ∈ (s.timeoutCallback n).fd_map.values → k ∈ s.fd_map.values ∧ k ≠ n :=
    fun hk => htaken.mem_values.mp hk
  generalize hu : ({ s.fire n with fd_map := m } : SelectIoWait) = u at heq
  have hfire : ∀ k ≠ n, u.netFd k = s.netFd k := by
    intro k hk
    rw [← hu]
    exact setNetFd_of_ne hk _
  have hothers : ∀ k ≠ n, (s.timeoutCallback n).netFd k = s.netFd k := by
    intro k hk
    rw [heq]
    show (u.clearUnless n (s.others n)).netFd k = _
    unfold clearUnless
    split
    · rw [pollsetDel_netFd_of_ne hk, hfire k hk]
    · exact hfire k hk
  have hrevents : ∀ k, ((s.timeoutCallback n).netFd k).revents = (s.netFd k).revents := by
    intro k
    rw [heq]
    refine (clearUnless_netFd k).2.2.2.trans ?_
    rw [← hu]
    exact (fire_netFd k).2.2.1
  have hmaxfd : (s.timeoutCallback n).maxfd = s.maxfd := by
    rw [heq]
    show (u.clearUnless n (s.others n)).maxfd = _
    unfold clearUnless
    split
    · rw [pollsetDel_frame.2.2.2.2.2.2, ← hu]
      rfl
    · rw [← hu]
      rfl
  constructor
  case toLinked => exact h.toLinked.timeoutCallback hn hlive
  case quiet =>
    intro k hk
    rw [hrevents]
    apply h.quiet k
    rcases hk with hk | hout
    · exact .inl (hvalues hk).1
    · rw [inPoll, htaken.calls] at hout
      exact .inr hout
  case asks =>
    intro k hk
    rw [SelectIoWait.events, hothers k (hvalues hk).2]
    exact h.asks k (hvalues hk).1
  case listens =>
    intro k hk e he hasks
    obtain ⟨hk, hkn⟩ := hvalues hk
    rw [SelectIoWait.events, hothers k hkn] at hasks
    rw [hothers k hkn, heq]
    apply clearUnless_setOf he
    · rw [← hu]
      exact h.listens k hk e he hasks
    · intro hfd
      rw [← hu] at hfd
      exact h.others_and hk hkn ((fire_netFd n).1.symm.trans hfd) hasks
  case range =>
    intro k hk
    rw [hothers k (hvalues hk).2, hmaxfd]
    exact h.range k (hvalues hk).1

/-! ## `Poll` -/

theorem change_true (set : Int → Bool) (cond : Bool) (fd fd' : Int) :
    change set cond fd true fd' = (set fd' || (fd = fd' && cond)) := by
  unfold change
  by_cases hfd : fd' = fd
  · cases cond <;> simp [hfd]
  · cases cond <;> simp [hfd, Ne.symm hfd]

theorem register_setOf {task : Nat} {events e : BitVec 32} {timeout : Int} (he : Selectable e)
    (fd : Int) : (s.register n task events timeout).setOf e fd =
      (s.setOf e fd ||
        ((s.netFd n).fd = fd && (ofShort (s.netFd n).events ||| events) &&& e != 0)) := by
  show (s.pollsetAdd n events).setOf e fd = _
  unfold setOf
  rcases he with rfl | rfl | rfl
  · rw [if_pos rfl, if_pos rfl]
    exact change_true _ _ _ _
  · rw [if_neg (by decide), if_pos rfl, if_neg (by decide), if_pos rfl]
    exact change_true _ _ _ _
  · rw [if_neg (by decide), if_neg (by decide), if_neg (by decide), if_neg (by decide)]
    exact change_true _ _ _ _

theorem register_netFd_self {task : Nat} {events : BitVec 32} {timeout : Int} :
    ((s.register n task events timeout).netFd n).events =
        toShort (ofShort (s.netFd n).events ||| events) ∧
      ((s.register n task events timeout).netFd n).revents = (s.netFd n).revents := by
  simp [register, pollsetAdd]

theorem register_netFd_of_ne {task : Nat} {events : BitVec 32} {timeout : Int} {m : Nat}
    (hm : m ≠ n) : (s.register n task events timeout).netFd m = s.netFd m := by
  simp [register, setNetFd, pollsetAdd, hm]

theorem register_maxfd {task : Nat} {events : BitVec 32} {timeout : Int} :
    (s.register n task events timeout).maxfd =
      if s.maxfd < (s.netFd n).fd then (s.netFd n).fd else s.maxfd := rfl

/-- `PollsetAdd` accepts only events that `select` can report. -/
theorem exists_selectable {events : BitVec 32} (hzero : events ≠ 0)
    (hmask : events &&& ~~~(POLLIN ||| POLLOUT ||| POLLPRI) = 0) :
    ∃ e, Selectable e ∧ events &&& e ≠ 0 := by
  by_contra hnone
  push Not at hnone
  have hin := hnone POLLIN (.inl rfl)
  have hout := hnone POLLOUT (.inr (.inl rfl))
  have hpri := hnone POLLPRI (.inr (.inr rfl))
  have hnot : ~~~(POLLIN ||| POLLOUT ||| POLLPRI) ||| (POLLIN ||| POLLOUT ||| POLLPRI) =
      BitVec.allOnes 32 := by decide
  have hsplit : events = events &&& ~~~(POLLIN ||| POLLOUT ||| POLLPRI) |||
      (events &&& POLLIN ||| events &&& POLLOUT ||| events &&& POLLPRI) := by
    rw [← BitVec.and_or_distrib_left, ← BitVec.and_or_distrib_left, ← BitVec.and_or_distrib_left,
      hnot, BitVec.and_allOnes]
  rw [hsplit, hmask, hin, hout, hpri] at hzero
  exact hzero (by decide)

theorem Attentive.register (h : s.Attentive) {task : Nat} {events : BitVec 32} {timeout : Int}
    (howner : (s.netFd n).owner_task = none) (hcall : s.calls task = none)
    (hvalid : s.invalid n events = false) : (s.register n task events timeout).Attentive := by
  obtain ⟨⟨⟨hfd, hzero⟩, hmask⟩, hsize⟩ :
      ((0 ≤ (s.netFd n).fd ∧ events ≠ 0) ∧
        events &&& ~~~(POLLIN ||| POLLOUT ||| POLLPRI) = 0) ∧ (s.netFd n).fd < FD_SETSIZE := by
    unfold invalid at hvalid
    simpa using hvalid
  have hout : ¬ s.inPoll n := fun ⟨u, c, hc, hnet⟩ => h.not_called howner hc hnet
  have hcalled : ∀ m, s.inPoll m → (s.register n task events timeout).inPoll m := by
    rintro m ⟨u, c, hc, hnet⟩
    refine ⟨u, c, ?_, hnet⟩
    rw [register_calls, if_neg, hc]
    rintro rfl
    rw [hcall] at hc
    cases hc
  have hvalues : ∀ m ∈ (s.register n task events timeout).fd_map.values,
      m = n ∨ m ∈ s.fd_map.values ∧ m ≠ n := by
    intro m hm
    by_cases hmn : m = n
    · exact .inl hmn
    · exact .inr ⟨(mem_values_register.mp hm).resolve_left hmn, hmn⟩
  obtain ⟨hevents, hrevents⟩ := @register_netFd_self s n task events timeout
  have hall : ∀ e, Selectable e → (s.register n task events timeout).events n &&& e =
      (ofShort (s.netFd n).events ||| events) &&& e := by
    intro e he
    rw [SelectIoWait.events, hevents, Selectable.and_ofShort he]
  constructor
  case toLinked => exact h.toLinked.register howner hcall
  case quiet =>
    intro m hm
    by_cases hmn : m = n
    · rw [hmn, hrevents]
      exact h.quiet n (.inr hout)
    · rw [register_netFd_of_ne hmn]
      apply h.quiet m
      rcases hm with hm | hm
      · exact .inl ((mem_values_register.mp hm).resolve_left hmn)
      · exact .inr fun hin => hm (hcalled m hin)
  case asks =>
    intro m hm
    rcases hvalues m hm with rfl | ⟨hm, hmn⟩
    · obtain ⟨e, he, hasks⟩ := exists_selectable hzero hmask
      refine ⟨e, he, ?_⟩
      rw [hall e he, BitVec.and_comm, BitVec.and_or_distrib_left]
      intro hnone
      apply hasks
      rw [BitVec.and_comm]
      exact (BitVec.or_eq_zero_iff.mp hnone).2
    · rw [SelectIoWait.events, register_netFd_of_ne hmn]
      exact h.asks m hm
  case listens =>
    intro m hm e he hasks
    rw [register_fd, register_setOf he, Bool.or_eq_true]
    rcases hvalues m hm with rfl | ⟨hm, hmn⟩
    · right
      rw [hall e he] at hasks
      simpa using hasks
    · left
      rw [SelectIoWait.events, register_netFd_of_ne hmn] at hasks
      exact h.listens m hm e he hasks
  case range =>
    intro m hm
    rw [register_fd, register_maxfd]
    rcases hvalues m hm with rfl | ⟨hm, -⟩
    · refine ⟨hfd, hsize, ?_⟩
      split <;> omega
    · obtain ⟨hpos, hlt, hle⟩ := h.range m hm
      refine ⟨hpos, hlt, ?_⟩
      split <;> omega

theorem Attentive.ended (h : s.Attentive) (o : Option Ending) :
    ({ s with ended := o } : SelectIoWait).Attentive :=
  ⟨⟨h.key, h.once, h.called, h.mapped, h.queue, h.nodup, h.timer⟩, h.quiet, h.asks, h.listens,
    h.range⟩

theorem Attentive.poll (h : s.Attentive) {task : Nat} (hcall : s.calls task = none)
    (events : BitVec 32) (timeout : Int) : (s.poll n task events timeout).Attentive := by
  obtain ⟨-, heq⟩ | ⟨-, heq⟩ | ⟨howner, hvalid, heq⟩ := s.poll_cases n task events timeout
  · rw [heq]
    exact h.ended _
  · rw [heq]
    exact h
  · rw [heq]
    exact h.register howner hcall hvalid

theorem Attentive.pollReturn (h : s.Attentive) {task : Nat} {c : PollCall}
    (hc : s.calls task = some c) (htask : task ∈ s.runnableQueue_) :
    (s.pollReturn task c).Attentive := by
  obtain ⟨hmap, hcalls, -, -⟩ := @pollReturn_frame s task c
  have hout : c.netFd ∉ s.fd_map.values := by
    obtain ⟨d, hd, hout⟩ := h.queue task htask
    rw [hc] at hd
    cases hd
    exact hout
  have hothers : ∀ m ∈ (s.pollReturn task c).fd_map.values,
      m ∈ s.fd_map.values ∧ (s.pollReturn task c).netFd m = s.netFd m := by
    intro m hm
    rw [hmap] at hm
    refine ⟨hm, pollReturn_netFd_of_ne ?_⟩
    rintro rfl
    exact hout hm
  have hsets : ∀ e, (s.pollReturn task c).setOf e = s.setOf e := by
    intro e
    unfold SelectIoWait.pollReturn
    dsimp only
    split <;> rfl
  have hmaxfd : (s.pollReturn task c).maxfd = s.maxfd := by
    unfold SelectIoWait.pollReturn
    dsimp only
    split <;> rfl
  constructor
  case toLinked => exact h.toLinked.pollReturn hc htask
  case quiet =>
    intro m hm
    by_cases hmc : m = c.netFd
    · rw [hmc, pollReturn_netFd_self]
      split <;> rfl
    · rw [pollReturn_netFd_of_ne hmc]
      apply h.quiet m
      rcases hm with hm | hm
      · exact .inl (hothers m hm).1
      · right
        rintro ⟨u, d, hd, hnet⟩
        refine hm ⟨u, d, ?_, hnet⟩
        rw [hcalls, Function.update_of_ne, hd]
        rintro rfl
        rw [hc] at hd
        cases hd
        exact hmc hnet.symm
  case asks =>
    intro m hm
    obtain ⟨hm, hnet⟩ := hothers m hm
    rw [SelectIoWait.events, hnet]
    exact h.asks m hm
  case listens =>
    intro m hm e he hasks
    obtain ⟨hm, hnet⟩ := hothers m hm
    rw [SelectIoWait.events, hnet] at hasks
    rw [hnet, hsets]
    exact h.listens m hm e he hasks
  case range =>
    intro m hm
    obtain ⟨hm, hnet⟩ := hothers m hm
    rw [hnet, hmaxfd]
    exact h.range m hm

/-! ## `NetFD`s come and go -/

theorem Attentive.replace (h : s.Attentive) (hin : ¬ s.inPoll n) {f : NetFD}
    (hrevents : f.revents = 0) (htimer : f.timer ≠ .armed) : (s.setNetFd n f).Attentive := by
  have hne : ∀ {m}, m ∈ s.fd_map.values → m ≠ n := by
    rintro m hm rfl
    exact hin (h.mapped m hm)
  constructor
  case toLinked =>
    constructor
    case key =>
      intro itr hitr
      rw [setNetFd_of_ne (hne (List.mem_map_of_mem hitr))]
      exact h.key itr hitr
    case once => exact h.once
    case called =>
      intro u c hc
      rw [setNetFd_of_ne fun heq => hin ⟨u, c, hc, heq⟩]
      exact h.called u c hc
    case mapped => exact h.mapped
    case queue => exact h.queue
    case nodup => exact h.nodup
    case timer =>
      intro m hm
      by_cases hmn : m = n
      · rw [hmn, setNetFd_self] at hm
        exact absurd hm htimer
      · rw [setNetFd_of_ne hmn] at hm
        exact h.timer m hm
  case quiet =>
    intro m hm
    by_cases hmn : m = n
    · rw [hmn, setNetFd_self]
      exact hrevents
    · rw [setNetFd_of_ne hmn]
      exact h.quiet m hm
  case asks =>
    intro m hm
    rw [SelectIoWait.events, setNetFd_of_ne (hne hm)]
    exact h.asks m hm
  case listens =>
    intro m hm e he hasks
    rw [SelectIoWait.events, setNetFd_of_ne (hne hm)] at hasks
    rw [setNetFd_of_ne (hne hm)]
    exact h.listens m hm e he hasks
  case range =>
    intro m hm
    rw [setNetFd_of_ne (hne hm)]
    exact h.range m hm

theorem Attentive.assert (h : s.Attentive) (cond : Bool) : (s.assert cond).Attentive := by
  unfold SelectIoWait.assert
  split
  · exact h
  · exact h.ended _

/-- A `NetFD` is constructed, assigned to and closed while it is outside of `Poll`, and none is
copied after it has been woken and before its `Poll` has returned. -/
def Outside (s : SelectIoWait) : NetFdEvent → Prop
  | .select _ => True
  | .construct n _ _ | .innerClose n => ¬ s.inPoll n
  | .copy _ n m | .assign _ n m => ¬ s.inPoll n ∧ (m ∈ s.fd_map.values ∨ ¬ s.inPoll m)

theorem Attentive.step (h : s.Attentive) {a : SelectEvent} (hs : s.step a = some t) :
    t.Attentive := by
  obtain ⟨hlive, ⟨n, task, events, timeout, -, hcall, rfl⟩ | ⟨ready, -, -, rfl⟩ |
    ⟨errno, -, rfl⟩ | ⟨n, -, htimer, rfl⟩ | ⟨task, c, -, hc, htask, rfl⟩⟩ := step_cases hs
  · exact h.poll hcall events timeout
  · exact h.waitLoop ready
  · exact h.assert _
  · exact h.timeoutCallback (h.timer n htimer) hlive
  · exact h.pollReturn hc htask

theorem Attentive.unarmed (h : s.Attentive) (hin : ¬ s.inPoll n) : (s.netFd n).timer ≠ .armed :=
  fun htimer => hin (h.mapped n (h.timer n htimer))

theorem Attentive.netFdStep (h : s.Attentive) {a : NetFdEvent} (hout : s.Outside a)
    (hs : s.netFdStep a = some t) : t.Attentive := by
  cases a with
  | select a => exact h.step hs
  | construct n fd share =>
      obtain ⟨-, heq⟩ := Option.ite_none_left_eq_some.mp hs
      cases heq
      exact h.replace hout rfl (show PollTimer.none ≠ .armed by decide)
  | copy task n m =>
      obtain ⟨-, heq⟩ := Option.ite_none_left_eq_some.mp hs
      cases heq
      apply (h.assert _).replace
      · rw [inPoll, (assert_frame).2.2.1]
        exact hout.1
      · exact h.quiet m hout.2
      · show PollTimer.none ≠ .armed
        decide
  | assign task n m =>
      obtain ⟨-, heq⟩ := Option.ite_none_left_eq_some.mp hs
      cases heq
      unfold SelectIoWait.assign
      dsimp only
      split
      · apply Attentive.assert
        exact h.replace hout.1 (h.quiet n (.inr hout.1)) (h.unarmed hout.1)
      · exact h.replace hout.1 (h.quiet m hout.2) (h.unarmed hout.1)
  | innerClose n =>
      obtain ⟨-, heq⟩ := Option.ite_none_left_eq_some.mp hs
      cases heq
      unfold SelectIoWait.innerClose
      split
      · exact h
      · exact h.replace hout (h.quiet n (.inr hout)) (h.unarmed hout)

/-! ## Every run -/

/-- `select` is asked for every event that a `NetFD` in `fd_map` waits for, which is at least one,
and whatever it reports, a pass wakes those for which it has come. -/
structure MissesNone (s : SelectIoWait) : Prop where
  asks : ∀ n ∈ s.fd_map.values, ∃ e, Selectable e ∧ s.events n &&& e ≠ 0
  listens : ∀ n ∈ s.fd_map.values, ∀ e, Selectable e → s.events n &&& e ≠ 0 →
    s.setOf e (s.netFd n).fd = true
  range : ∀ n ∈ s.fd_map.values, 0 ≤ (s.netFd n).fd ∧ (s.netFd n).fd < FD_SETSIZE ∧
    (s.netFd n).fd ≤ s.maxfd
  wakes : ∀ ready, WakesReady s (s.waitLoop ready) ready

theorem missesNone_of_outside (k : Sockets) (ndebug : Bool) (s : SelectIoWait)
    (h : Reach netFdStep Outside (make k ndebug) s) : s.MissesNone := by
  have hattentive : s.Attentive := h.invariant (attentive_make k ndebug)
    fun _ _ _ h hout hs => h.netFdStep hout hs
  exact ⟨hattentive.asks, hattentive.listens, hattentive.range,
    hattentive.wakesReady fun n hn => hattentive.quiet n (.inl hn)⟩

/-- Three tasks wait for the descriptor 5, two of them to read.  One of the readers is a copy of
the other one, made while that one waits. -/
theorem missesNone_two_readers :
    ∃ s, Reach netFdStep Outside (make sharedFd true) s ∧ s.fd_map.values = [0, 1, 2] ∧
      s.MissesNone ∧ (s.waitLoop ⟨[5], [], []⟩).runnableQueue_ = [7, 8] := by
  have hmake : Reach netFdStep Outside (make sharedFd true) (make sharedFd true) := .refl
  have hread := hmake.tail (a := NetFdEvent.select (.poll 0 7 POLLIN 0)) trivial rfl
  have hcopy := hread.tail (a := NetFdEvent.copy 8 1 0) ⟨?_, .inl List.mem_cons_self⟩ rfl
  · have hread' := hcopy.tail (a := NetFdEvent.select (.poll 1 8 POLLIN 10)) trivial rfl
    have hwrite := hread'.tail (a := NetFdEvent.select (.poll 2 9 POLLOUT 10)) trivial rfl
    exact ⟨_, hwrite, rfl, missesNone_of_outside sharedFd true _ hwrite, rfl⟩
  · rintro ⟨u, c, hc, hnet⟩
    have hc : Function.update (fun _ => none) 7 (some { netFd := 0, timeout := 0 }) u = some c := hc
    rw [Function.update_apply] at hc
    split at hc <;> cases hc
    cases hnet

end SelectIoWait

end CppGo.Netio
